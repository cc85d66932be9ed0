import Mathlib

/-! AES: the cipher that works on bytes (`core/rtw_security.c`), and the one that works on words
with a table (`core/crypto/aes-internal.c`, `aes-internal-enc.c`, with `AES_SMALL_TABLES`). -/
namespace Rtl8821cu.Aes

abbrev Byte := BitVec 8

abbrev Word := BitVec 32

/-- Four bytes of a block. -/
@[ext] structure Column where
  b0 : Byte
  b1 : Byte
  b2 : Byte
  b3 : Byte
  deriving DecidableEq

/-- The 16 bytes of a block. -/
@[ext] structure Block where
  c0 : Column
  c1 : Column
  c2 : Column
  c3 : Column
  deriving DecidableEq

def Column.map (f : Byte → Byte) (c : Column) : Column := ⟨f c.b0, f c.b1, f c.b2, f c.b3⟩

/-- `xor_32`. -/
def Column.xor (a b : Column) : Column :=
  ⟨a.b0 ^^^ b.b0, a.b1 ^^^ b.b1, a.b2 ^^^ b.b2, a.b3 ^^^ b.b3⟩

instance : XorOp Column := ⟨Column.xor⟩

def Block.map (f : Column → Column) (b : Block) : Block := ⟨f b.c0, f b.c1, f b.c2, f b.c3⟩

/-- `xor_128`, `bitwise_xor`, `xor_aes_block`, `xor_block` and `xor`. -/
def Block.xor (a b : Block) : Block :=
  ⟨a.c0 ^^^ b.c0, a.c1 ^^^ b.c1, a.c2 ^^^ b.c2, a.c3 ^^^ b.c3⟩

instance : XorOp Block := ⟨Block.xor⟩

def sboxTable : List Byte :=
  [0x63, 0x7c, 0x77, 0x7b, 0xf2, 0x6b, 0x6f, 0xc5, 0x30, 0x01, 0x67, 0x2b, 0xfe, 0xd7, 0xab, 0x76,
    0xca, 0x82, 0xc9, 0x7d, 0xfa, 0x59, 0x47, 0xf0, 0xad, 0xd4, 0xa2, 0xaf, 0x9c, 0xa4, 0x72, 0xc0,
    0xb7, 0xfd, 0x93, 0x26, 0x36, 0x3f, 0xf7, 0xcc, 0x34, 0xa5, 0xe5, 0xf1, 0x71, 0xd8, 0x31, 0x15,
    0x04, 0xc7, 0x23, 0xc3, 0x18, 0x96, 0x05, 0x9a, 0x07, 0x12, 0x80, 0xe2, 0xeb, 0x27, 0xb2, 0x75,
    0x09, 0x83, 0x2c, 0x1a, 0x1b, 0x6e, 0x5a, 0xa0, 0x52, 0x3b, 0xd6, 0xb3, 0x29, 0xe3, 0x2f, 0x84,
    0x53, 0xd1, 0x00, 0xed, 0x20, 0xfc, 0xb1, 0x5b, 0x6a, 0xcb, 0xbe, 0x39, 0x4a, 0x4c, 0x58, 0xcf,
    0xd0, 0xef, 0xaa, 0xfb, 0x43, 0x4d, 0x33, 0x85, 0x45, 0xf9, 0x02, 0x7f, 0x50, 0x3c, 0x9f, 0xa8,
    0x51, 0xa3, 0x40, 0x8f, 0x92, 0x9d, 0x38, 0xf5, 0xbc, 0xb6, 0xda, 0x21, 0x10, 0xff, 0xf3, 0xd2,
    0xcd, 0x0c, 0x13, 0xec, 0x5f, 0x97, 0x44, 0x17, 0xc4, 0xa7, 0x7e, 0x3d, 0x64, 0x5d, 0x19, 0x73,
    0x60, 0x81, 0x4f, 0xdc, 0x22, 0x2a, 0x90, 0x88, 0x46, 0xee, 0xb8, 0x14, 0xde, 0x5e, 0x0b, 0xdb,
    0xe0, 0x32, 0x3a, 0x0a, 0x49, 0x06, 0x24, 0x5c, 0xc2, 0xd3, 0xac, 0x62, 0x91, 0x95, 0xe4, 0x79,
    0xe7, 0xc8, 0x37, 0x6d, 0x8d, 0xd5, 0x4e, 0xa9, 0x6c, 0x56, 0xf4, 0xea, 0x65, 0x7a, 0xae, 0x08,
    0xba, 0x78, 0x25, 0x2e, 0x1c, 0xa6, 0xb4, 0xc6, 0xe8, 0xdd, 0x74, 0x1f, 0x4b, 0xbd, 0x8b, 0x8a,
    0x70, 0x3e, 0xb5, 0x66, 0x48, 0x03, 0xf6, 0x0e, 0x61, 0x35, 0x57, 0xb9, 0x86, 0xc1, 0x1d, 0x9e,
    0xe1, 0xf8, 0x98, 0x11, 0x69, 0xd9, 0x8e, 0x94, 0x9b, 0x1e, 0x87, 0xe9, 0xce, 0x55, 0x28, 0xdf,
    0x8c, 0xa1, 0x89, 0x0d, 0xbf, 0xe6, 0x42, 0x68, 0x41, 0x99, 0x2d, 0x0f, 0xb0, 0x54, 0xbb, 0x16]

def sbox (a : Byte) : Byte := sboxTable.getD a.toNat 0

def rconTable : List Byte :=
  [0x01, 0x02, 0x04, 0x08, 0x10, 0x20, 0x40, 0x80, 0x1b, 0x36, 0x36, 0x36]

def nextKey (key : Block) (round : ℕ) : Block :=
  let sboxKey : Column := ⟨sbox key.c3.b1, sbox key.c3.b2, sbox key.c3.b3, sbox key.c3.b0⟩
  let rcon := rconTable.getD round 0
  let k0 := sboxKey ^^^ key.c0
  let k0 := { k0 with b0 := k0.b0 ^^^ rcon }
  let k1 := k0 ^^^ key.c1
  let k2 := k1 ^^^ key.c2
  ⟨k0, k1, k2, k2 ^^^ key.c3⟩

def byteSub (b : Block) : Block := b.map (Column.map sbox)

def shiftRow (b : Block) : Block where
  c0 := ⟨b.c0.b0, b.c1.b1, b.c2.b2, b.c3.b3⟩
  c1 := ⟨b.c1.b0, b.c2.b1, b.c3.b2, b.c0.b3⟩
  c2 := ⟨b.c2.b0, b.c3.b1, b.c0.b2, b.c1.b3⟩
  c3 := ⟨b.c3.b0, b.c0.b1, b.c1.b2, b.c2.b3⟩

/-- A byte of the shift by one bit in `mix_column`, with the bit that `low` hands on. -/
def shiftIn (a low : Byte) : Byte :=
  if low &&& 0x80 = 0x80 then (a <<< 1) ||| 0x01 else a <<< 1

def mixColumn (c : Column) : Column :=
  let add1b := c.map fun x => if x &&& 0x80 = 0x80 then 0x1b else 0x00
  let swapHalfs : Column := ⟨c.b2, c.b3, c.b0, c.b1⟩
  let rotl : Column := ⟨c.b3, c.b0, c.b1, c.b2⟩
  let masked := c.map (· &&& 0x7f)
  let andf7 : Column := ⟨(masked.b0 <<< 1) &&& 0xfe, shiftIn masked.b1 masked.b0,
    shiftIn masked.b2 masked.b1, shiftIn masked.b3 masked.b2⟩
  let add1bf7 := add1b ^^^ andf7
  let sum := c ^^^ add1bf7
  let rotr : Column := ⟨sum.b1, sum.b2, sum.b3, sum.b0⟩
  (add1bf7 ^^^ rotr) ^^^ (swapHalfs ^^^ rotl)

/-- A round of `aes128k128d` other than the first and the last. -/
def middleRound (s : Block × Block) (round : ℕ) : Block × Block :=
  ((shiftRow (byteSub s.1)).map mixColumn ^^^ s.2, nextKey s.2 round)

def aes128k128d (key data : Block) : Block :=
  let s := (List.range' 1 9).foldl middleRound (key ^^^ data, nextKey key 0)
  shiftRow (byteSub s.1) ^^^ s.2

def te0 : List Word :=
  [0xc66363a5, 0xf87c7c84, 0xee777799, 0xf67b7b8d, 0xfff2f20d, 0xd66b6bbd, 0xde6f6fb1, 0x91c5c554,
    0x60303050, 0x02010103, 0xce6767a9, 0x562b2b7d, 0xe7fefe19, 0xb5d7d762, 0x4dababe6, 0xec76769a,
    0x8fcaca45, 0x1f82829d, 0x89c9c940, 0xfa7d7d87, 0xeffafa15, 0xb25959eb, 0x8e4747c9, 0xfbf0f00b,
    0x41adadec, 0xb3d4d467, 0x5fa2a2fd, 0x45afafea, 0x239c9cbf, 0x53a4a4f7, 0xe4727296, 0x9bc0c05b,
    0x75b7b7c2, 0xe1fdfd1c, 0x3d9393ae, 0x4c26266a, 0x6c36365a, 0x7e3f3f41, 0xf5f7f702, 0x83cccc4f,
    0x6834345c, 0x51a5a5f4, 0xd1e5e534, 0xf9f1f108, 0xe2717193, 0xabd8d873, 0x62313153, 0x2a15153f,
    0x0804040c, 0x95c7c752, 0x46232365, 0x9dc3c35e, 0x30181828, 0x379696a1, 0x0a05050f, 0x2f9a9ab5,
    0x0e070709, 0x24121236, 0x1b80809b, 0xdfe2e23d, 0xcdebeb26, 0x4e272769, 0x7fb2b2cd, 0xea75759f,
    0x1209091b, 0x1d83839e, 0x582c2c74, 0x341a1a2e, 0x361b1b2d, 0xdc6e6eb2, 0xb45a5aee, 0x5ba0a0fb,
    0xa45252f6, 0x763b3b4d, 0xb7d6d661, 0x7db3b3ce, 0x5229297b, 0xdde3e33e, 0x5e2f2f71, 0x13848497,
    0xa65353f5, 0xb9d1d168, 0x00000000, 0xc1eded2c, 0x40202060, 0xe3fcfc1f, 0x79b1b1c8, 0xb65b5bed,
    0xd46a6abe, 0x8dcbcb46, 0x67bebed9, 0x7239394b, 0x944a4ade, 0x984c4cd4, 0xb05858e8, 0x85cfcf4a,
    0xbbd0d06b, 0xc5efef2a, 0x4faaaae5, 0xedfbfb16, 0x864343c5, 0x9a4d4dd7, 0x66333355, 0x11858594,
    0x8a4545cf, 0xe9f9f910, 0x04020206, 0xfe7f7f81, 0xa05050f0, 0x783c3c44, 0x259f9fba, 0x4ba8a8e3,
    0xa25151f3, 0x5da3a3fe, 0x804040c0, 0x058f8f8a, 0x3f9292ad, 0x219d9dbc, 0x70383848, 0xf1f5f504,
    0x63bcbcdf, 0x77b6b6c1, 0xafdada75, 0x42212163, 0x20101030, 0xe5ffff1a, 0xfdf3f30e, 0xbfd2d26d,
    0x81cdcd4c, 0x180c0c14, 0x26131335, 0xc3ecec2f, 0xbe5f5fe1, 0x359797a2, 0x884444cc, 0x2e171739,
    0x93c4c457, 0x55a7a7f2, 0xfc7e7e82, 0x7a3d3d47, 0xc86464ac, 0xba5d5de7, 0x3219192b, 0xe6737395,
    0xc06060a0, 0x19818198, 0x9e4f4fd1, 0xa3dcdc7f, 0x44222266, 0x542a2a7e, 0x3b9090ab, 0x0b888883,
    0x8c4646ca, 0xc7eeee29, 0x6bb8b8d3, 0x2814143c, 0xa7dede79, 0xbc5e5ee2, 0x160b0b1d, 0xaddbdb76,
    0xdbe0e03b, 0x64323256, 0x743a3a4e, 0x140a0a1e, 0x924949db, 0x0c06060a, 0x4824246c, 0xb85c5ce4,
    0x9fc2c25d, 0xbdd3d36e, 0x43acacef, 0xc46262a6, 0x399191a8, 0x319595a4, 0xd3e4e437, 0xf279798b,
    0xd5e7e732, 0x8bc8c843, 0x6e373759, 0xda6d6db7, 0x018d8d8c, 0xb1d5d564, 0x9c4e4ed2, 0x49a9a9e0,
    0xd86c6cb4, 0xac5656fa, 0xf3f4f407, 0xcfeaea25, 0xca6565af, 0xf47a7a8e, 0x47aeaee9, 0x10080818,
    0x6fbabad5, 0xf0787888, 0x4a25256f, 0x5c2e2e72, 0x381c1c24, 0x57a6a6f1, 0x73b4b4c7, 0x97c6c651,
    0xcbe8e823, 0xa1dddd7c, 0xe874749c, 0x3e1f1f21, 0x964b4bdd, 0x61bdbddc, 0x0d8b8b86, 0x0f8a8a85,
    0xe0707090, 0x7c3e3e42, 0x71b5b5c4, 0xcc6666aa, 0x904848d8, 0x06030305, 0xf7f6f601, 0x1c0e0e12,
    0xc26161a3, 0x6a35355f, 0xae5757f9, 0x69b9b9d0, 0x17868691, 0x99c1c158, 0x3a1d1d27, 0x279e9eb9,
    0xd9e1e138, 0xebf8f813, 0x2b9898b3, 0x22111133, 0xd26969bb, 0xa9d9d970, 0x078e8e89, 0x339494a7,
    0x2d9b9bb6, 0x3c1e1e22, 0x15878792, 0xc9e9e920, 0x87cece49, 0xaa5555ff, 0x50282878, 0xa5dfdf7a,
    0x038c8c8f, 0x59a1a1f8, 0x09898980, 0x1a0d0d17, 0x65bfbfda, 0xd7e6e631, 0x844242c6, 0xd06868b8,
    0x824141c3, 0x299999b0, 0x5a2d2d77, 0x1e0f0f11, 0x7bb0b0cb, 0xa85454fc, 0x6dbbbbd6, 0x2c16163a]

def rcons : List Byte := [0x01, 0x02, 0x04, 0x08, 0x10, 0x20, 0x40, 0x80, 0x1b, 0x36]

def rcon (i : ℕ) : Word := (rcons.getD i 0).setWidth 32 <<< 24

def rotr (val : Word) (bits : ℕ) : Word := (val >>> bits) ||| (val <<< (32 - bits))

/-- `Te0[(i >> n) & 0xff]`. -/
def te (i : Word) (n : ℕ) : Word := te0.getD ((i >>> n) &&& 0xff).toNat 0

/-- `TE0` to `TE3`. -/
def te0Of (i : Word) : Word := te i 24

def te1Of (i : Word) : Word := rotr (te i 16) 8

def te2Of (i : Word) : Word := rotr (te i 8) 16

def te3Of (i : Word) : Word := rotr (te i 0) 24

/-- `TE41` to `TE44`, each for the byte from bit `n` on: `TE421` to `TE414` and `TE411` to `TE444`
are the same for other bytes. -/
def te41 (i : Word) (n : ℕ) : Word := (te i n <<< 8) &&& 0xff000000

def te42 (i : Word) (n : ℕ) : Word := te i n &&& 0x00ff0000

def te43 (i : Word) (n : ℕ) : Word := te i n &&& 0x0000ff00

def te44 (i : Word) (n : ℕ) : Word := (te i n >>> 8) &&& 0x000000ff

def getu32 (c : Column) : Word :=
  (c.b0.setWidth 32 <<< 24) ^^^ (c.b1.setWidth 32 <<< 16) ^^^ (c.b2.setWidth 32 <<< 8) ^^^
    c.b3.setWidth 32

def putu32 (st : Word) : Column :=
  ⟨(st >>> 24).setWidth 8, (st >>> 16).setWidth 8, (st >>> 8).setWidth 8, st.setWidth 8⟩

def columnAt (l : List Byte) (i : ℕ) : Column :=
  ⟨l.getD i 0, l.getD (i + 1) 0, l.getD (i + 2) 0, l.getD (i + 3) 0⟩

/-- The block of 16 bytes, filled up with zeros. -/
def Block.ofList (l : List Byte) : Block :=
  ⟨columnAt l 0, columnAt l 4, columnAt l 8, columnAt l 12⟩

def Column.toList (c : Column) : List Byte := [c.b0, c.b1, c.b2, c.b3]

def Block.toList (b : Block) : List Byte :=
  b.c0.toList ++ (b.c1.toList ++ (b.c2.toList ++ b.c3.toList))

/-- A word of the key schedule. -/
def rkAt (rk : List Word) (i : ℕ) : Word := rk.getD i 0

/-- `TE421(temp) ^ TE432(temp) ^ TE443(temp) ^ TE414(temp)`. -/
def subRot (temp : Word) : Word := te41 temp 16 ^^^ te42 temp 8 ^^^ te43 temp 0 ^^^ te44 temp 24

/-- `TE411(temp) ^ TE422(temp) ^ TE433(temp) ^ TE444(temp)`. -/
def subWord (temp : Word) : Word := te41 temp 24 ^^^ te42 temp 16 ^^^ te43 temp 8 ^^^ te44 temp 0

/-- A turn of `rijndaelKeySetupEnc` for 128 bits. -/
def step128 (rk : List Word) (i : ℕ) : List Word :=
  let rk4 := rkAt rk (4 * i) ^^^ subRot (rkAt rk (4 * i + 3)) ^^^ rcon i
  let rk5 := rkAt rk (4 * i + 1) ^^^ rk4
  let rk6 := rkAt rk (4 * i + 2) ^^^ rk5
  rk ++ [rk4, rk5, rk6, rkAt rk (4 * i + 3) ^^^ rk6]

/-- A turn for 192 bits. -/
def step192 (rk : List Word) (i : ℕ) : List Word :=
  let rk6 := rkAt rk (6 * i) ^^^ subRot (rkAt rk (6 * i + 5)) ^^^ rcon i
  let rk7 := rkAt rk (6 * i + 1) ^^^ rk6
  let rk8 := rkAt rk (6 * i + 2) ^^^ rk7
  let rk9 := rkAt rk (6 * i + 3) ^^^ rk8
  if i = 7 then rk ++ [rk6, rk7, rk8, rk9]
  else
    let rk10 := rkAt rk (6 * i + 4) ^^^ rk9
    rk ++ [rk6, rk7, rk8, rk9, rk10, rkAt rk (6 * i + 5) ^^^ rk10]

/-- A turn for 256 bits. -/
def step256 (rk : List Word) (i : ℕ) : List Word :=
  let rk8 := rkAt rk (8 * i) ^^^ subRot (rkAt rk (8 * i + 7)) ^^^ rcon i
  let rk9 := rkAt rk (8 * i + 1) ^^^ rk8
  let rk10 := rkAt rk (8 * i + 2) ^^^ rk9
  let rk11 := rkAt rk (8 * i + 3) ^^^ rk10
  if i = 6 then rk ++ [rk8, rk9, rk10, rk11]
  else
    let rk12 := rkAt rk (8 * i + 4) ^^^ subWord rk11
    let rk13 := rkAt rk (8 * i + 5) ^^^ rk12
    let rk14 := rkAt rk (8 * i + 6) ^^^ rk13
    rk ++ [rk8, rk9, rk10, rk11, rk12, rk13, rk14, rkAt rk (8 * i + 7) ^^^ rk14]

/-- The first `n` words of the key. -/
def keyWords (cipherKey : List Byte) (n : ℕ) : List Word :=
  (List.range n).map fun i => getu32 (columnAt cipherKey (4 * i))

/-- `rijndaelKeySetupEnc`: the key schedule and the number of rounds. -/
def rijndaelKeySetupEnc (cipherKey : List Byte) : Option (List Word × ℕ) :=
  if cipherKey.length = 16 then
    some ((List.range 10).foldl step128 (keyWords cipherKey 4), 10)
  else if cipherKey.length = 24 then
    some ((List.range 8).foldl step192 (keyWords cipherKey 6), 12)
  else if cipherKey.length = 32 then
    some ((List.range 7).foldl step256 (keyWords cipherKey 8), 14)
  else none

/-- The state of `rijndaelEncrypt`. -/
structure State where
  s0 : Word
  s1 : Word
  s2 : Word
  s3 : Word

/-- `ROUND`, with the round key at `off`. -/
def round (rk : List Word) (off : ℕ) (s : State) : State where
  s0 := te0Of s.s0 ^^^ te1Of s.s1 ^^^ te2Of s.s2 ^^^ te3Of s.s3 ^^^ rkAt rk off
  s1 := te0Of s.s1 ^^^ te1Of s.s2 ^^^ te2Of s.s3 ^^^ te3Of s.s0 ^^^ rkAt rk (off + 1)
  s2 := te0Of s.s2 ^^^ te1Of s.s3 ^^^ te2Of s.s0 ^^^ te3Of s.s1 ^^^ rkAt rk (off + 2)
  s3 := te0Of s.s3 ^^^ te1Of s.s0 ^^^ te2Of s.s1 ^^^ te3Of s.s2 ^^^ rkAt rk (off + 3)

/-- The loop of full rounds, with the offset that `rk` has reached. -/
def roundsLoop (rk : List Word) : ℕ → ℕ → State → State × ℕ
  | 0, off, s => (s, off)
  | r + 1, off, s =>
    let t := round rk (off + 4) s
    if r = 0 then (t, off + 8) else roundsLoop rk r (off + 8) (round rk (off + 8) t)

/-- A word of the last round. -/
def lastWord (a b c d : Word) : Word := te41 a 24 ^^^ te42 b 16 ^^^ te43 c 8 ^^^ te44 d 0

def rijndaelEncrypt (rk : List Word) (nr : ℕ) (pt : Block) : Block :=
  let s : State := ⟨getu32 pt.c0 ^^^ rkAt rk 0, getu32 pt.c1 ^^^ rkAt rk 1,
    getu32 pt.c2 ^^^ rkAt rk 2, getu32 pt.c3 ^^^ rkAt rk 3⟩
  let p := roundsLoop rk (nr / 2) 0 s
  let t := p.1
  { c0 := putu32 (lastWord t.s0 t.s1 t.s2 t.s3 ^^^ rkAt rk p.2)
    c1 := putu32 (lastWord t.s1 t.s2 t.s3 t.s0 ^^^ rkAt rk (p.2 + 1))
    c2 := putu32 (lastWord t.s2 t.s3 t.s0 t.s1 ^^^ rkAt rk (p.2 + 2))
    c3 := putu32 (lastWord t.s3 t.s0 t.s1 t.s2 ^^^ rkAt rk (p.2 + 3)) }

/-- `aes_encrypt_init`: the cipher under a key. -/
def aesEncryptInit (key : List Byte) : Option (Block → Block) :=
  (rijndaelKeySetupEnc key).map fun p => rijndaelEncrypt p.1 p.2

end Rtl8821cu.Aes
