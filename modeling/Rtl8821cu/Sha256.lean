import Rtl8821cu.LibAbsorb

/-! SHA-256 and HMAC over it (`core/crypto/sha256-internal.c`, `core/crypto/sha256.c`). -/
namespace Rtl8821cu.Sha256

abbrev Byte := BitVec 8

abbrev Word := BitVec 32

def sha256BlockSize : ℕ := 64

/-- The array `K`. -/
def roundConstants : List Word :=
  [0x428a2f98, 0x71374491, 0xb5c0fbcf, 0xe9b5dba5, 0x3956c25b, 0x59f111f1, 0x923f82a4, 0xab1c5ed5,
    0xd807aa98, 0x12835b01, 0x243185be, 0x550c7dc3, 0x72be5d74, 0x80deb1fe, 0x9bdc06a7, 0xc19bf174,
    0xe49b69c1, 0xefbe4786, 0x0fc19dc6, 0x240ca1cc, 0x2de92c6f, 0x4a7484aa, 0x5cb0a9dc, 0x76f988da,
    0x983e5152, 0xa831c66d, 0xb00327c8, 0xbf597fc7, 0xc6e00bf3, 0xd5a79147, 0x06ca6351, 0x14292967,
    0x27b70a85, 0x2e1b2138, 0x4d2c6dfc, 0x53380d13, 0x650a7354, 0x766a0abb, 0x81c2c92e, 0x92722c85,
    0xa2bfe8a1, 0xa81a664b, 0xc24b8b70, 0xc76c51a3, 0xd192e819, 0xd6990624, 0xf40e3585, 0x106aa070,
    0x19a4c116, 0x1e376c08, 0x2748774c, 0x34b0bcb5, 0x391c0cb3, 0x4ed8aa4a, 0x5b9cca4f, 0x682e6ff3,
    0x748f82ee, 0x78a5636f, 0x84c87814, 0x8cc70208, 0x90befffa, 0xa4506ceb, 0xbef9a3f7, 0xc67178f2]

def rorc (x : Word) (y : ℕ) : Word := x >>> (y % 32) ||| x <<< (32 - y % 32)

def ch (x y z : Word) : Word := z ^^^ (x &&& (y ^^^ z))

def maj (x y z : Word) : Word := ((x ||| y) &&& z) ||| (x &&& y)

def bigSigma0 (x : Word) : Word := rorc x 2 ^^^ rorc x 13 ^^^ rorc x 22

def bigSigma1 (x : Word) : Word := rorc x 6 ^^^ rorc x 11 ^^^ rorc x 25

def gamma0 (x : Word) : Word := rorc x 7 ^^^ rorc x 18 ^^^ x >>> 3

def gamma1 (x : Word) : Word := rorc x 17 ^^^ rorc x 19 ^^^ x >>> 10

/-- `WPA_GET_BE32`. -/
def getBe32 (l : List Byte) (i : ℕ) : Word :=
  l.getD i 0 ++ l.getD (i + 1) 0 ++ l.getD (i + 2) 0 ++ l.getD (i + 3) 0

/-- `WPA_PUT_BE32`. -/
def putBe32 (w : Word) : List Byte :=
  [(w >>> 24).setWidth 8, (w >>> 16).setWidth 8, (w >>> 8).setWidth 8, w.setWidth 8]

/-- `WPA_PUT_BE64`. -/
def putBe64 (w : BitVec 64) : List Byte :=
  putBe32 ((w >>> 32).setWidth 32) ++ putBe32 (w.setWidth 32)

/-- The eight words `state` and `S`. -/
structure Regs where
  a : Word
  b : Word
  c : Word
  d : Word
  e : Word
  f : Word
  g : Word
  h : Word
  deriving DecidableEq

def Regs.add (s t : Regs) : Regs :=
  ⟨s.a + t.a, s.b + t.b, s.c + t.c, s.d + t.d, s.e + t.e, s.f + t.f, s.g + t.g, s.h + t.h⟩

/-- The words in the order in which `sha256_done` writes them. -/
def Regs.bytes (s : Regs) : List Byte :=
  putBe32 s.a ++ putBe32 s.b ++ putBe32 s.c ++ putBe32 s.d ++ putBe32 s.e ++ putBe32 s.f ++
    putBe32 s.g ++ putBe32 s.h

/-- `W`: the words of the block and the 48 made from them. -/
def schedule (buf : List Byte) : List Word :=
  (List.range' 16 48).foldl
    (fun w i => w ++ [gamma1 (w.getD (i - 2) 0) + w.getD (i - 7) 0 + gamma0 (w.getD (i - 15) 0) +
      w.getD (i - 16) 0])
    ((List.range 16).map fun i => getBe32 buf (4 * i))

/-- `RND`, and the words of `S` moved by one place. -/
def rnd (w : List Word) (s : Regs) (i : ℕ) : Regs :=
  let t0 := s.h + bigSigma1 s.e + ch s.e s.f s.g + roundConstants.getD i 0 + w.getD i 0
  let t1 := bigSigma0 s.a + maj s.a s.b s.c
  ⟨t0 + t1, s.a, s.b, s.c, s.d + t0, s.e, s.f, s.g⟩

/-- `sha256_compress` on the words of the state. -/
def sha256Compress (s : Regs) (buf : List Byte) : Regs :=
  s.add ((List.range 64).foldl (rnd (schedule buf)) s)

structure Sha256State where
  length : BitVec 64
  state : Regs
  curlen : ℕ
  buf : List Byte

/-- The words that `_sha256_init` writes. -/
def initialRegs : Regs :=
  ⟨0x6a09e667, 0xbb67ae85, 0x3c6ef372, 0xa54ff53a, 0x510e527f, 0x9b05688c, 0x1f83d9ab, 0x5be0cd19⟩

/-- `_sha256_init`; `buf` holds what it held. -/
def sha256Init (buf : Vector Byte sha256BlockSize) : Sha256State :=
  ⟨0, initialRegs, 0, buf.toList⟩

/-- `os_memcpy` to `buf + i`. -/
def put (buf : List Byte) (i : ℕ) (bytes : List Byte) : List Byte :=
  buf.take i ++ bytes ++ buf.drop (i + bytes.length)

namespace Sha256State

/-- `sha256_compress(md, md->buf)`. -/
def compressBuf (md : Sha256State) : Sha256State :=
  { md with state := sha256Compress md.state (md.buf.take sha256BlockSize) }

/-- The loop of `sha256_process`, of `turns` turns at most. -/
def processLoop : ℕ → Sha256State → List Byte → Sha256State
  | 0, md, _ => md
  | turns + 1, md, inp =>
      if inp.isEmpty then md
      else if md.curlen = 0 ∧ sha256BlockSize ≤ inp.length then
        processLoop turns
          { md with
            state := sha256Compress md.state (inp.take sha256BlockSize)
            length := md.length + 512 }
          (inp.drop sha256BlockSize)
      else
        let n := min inp.length (sha256BlockSize - md.curlen)
        let md := { md with buf := put md.buf md.curlen (inp.take n), curlen := md.curlen + n }
        let md :=
          if md.curlen = sha256BlockSize then
            { md.compressBuf with length := md.length + 512, curlen := 0 }
          else md
        processLoop turns md (inp.drop n)

def sha256Process (md : Sha256State) (inp : List Byte) : Option Sha256State :=
  if md.curlen ≥ sha256BlockSize then none else some (md.processLoop inp.length inp)

/-- The loops of `sha256_done` that write zeros up to `n`. -/
def zeros (md : Sha256State) (n : ℕ) : Sha256State :=
  { md with
    buf := put md.buf md.curlen (List.replicate (n - md.curlen) 0)
    curlen := max md.curlen n }

def sha256Done (md : Sha256State) : Option (List Byte) :=
  if md.curlen ≥ sha256BlockSize then none
  else
    let md := { md with length := md.length + BitVec.ofNat 64 (md.curlen * 8) }
    let md := { md with buf := put md.buf md.curlen [0x80], curlen := md.curlen + 1 }
    let md :=
      if md.curlen > 56 then { (md.zeros sha256BlockSize).compressBuf with curlen := 0 } else md
    let md := md.zeros 56
    let md := { md with buf := put md.buf 56 (putBe64 md.length) }.compressBuf
    some md.state.bytes

end Sha256State

/-- `sha256_vector`; `buf` is what the buffer of the context holds before. -/
def sha256Vector (buf : Vector Byte sha256BlockSize) (elems : List (List Byte)) :
    Option (List Byte) := do
  let md ← elems.foldlM (fun md e => md.sha256Process e) (sha256Init buf)
  md.sha256Done

example : sha256Vector (Vector.replicate 64 0xaa) [[0x61], [0x62, 0x63]] =
    some [0xba, 0x78, 0x16, 0xbf, 0x8f, 0x01, 0xcf, 0xea, 0x41, 0x41, 0x40, 0xde, 0x5d, 0xae, 0x22,
      0x23, 0xb0, 0x03, 0x61, 0xa3, 0x96, 0x17, 0x7a, 0x9c, 0xb4, 0x10, 0xff, 0x61, 0xf2, 0x00,
      0x15, 0xad] := by decide +kernel

/-- `k_pad`: the key in front of zeros, with `x` added to each byte. -/
def kPad (key : List Byte) (x : Byte) : List Byte :=
  (put (List.replicate 64 0) 0 key).map (· ^^^ x)

/-- The key, or its hash if it is longer than a block. -/
def shortKey (buf : Vector Byte sha256BlockSize) (key : List Byte) : Option (List Byte) :=
  if key.length > 64 then sha256Vector buf [key] else some key

def hmacSha256Vector (buf : Vector Byte sha256BlockSize) (key : List Byte)
    (elems : List (List Byte)) : Option (List Byte) :=
  if elems.length > 5 then none
  else do
    let key ← shortKey buf key
    let mac ← sha256Vector buf (kPad key 0x36 :: elems)
    sha256Vector buf [kPad key 0x5c, mac]

end Rtl8821cu.Sha256
