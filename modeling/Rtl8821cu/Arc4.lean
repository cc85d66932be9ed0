import Rtl8821cu.LibLeWord
import Rtl8821cu.LibStream

/-! RC4 and the CRC-32 of the ICV (`core/rtw_security.c`). -/
namespace Rtl8821cu.Arc4
open LeWord StreamCipher

/-- `struct arc4context`; the indices stay below 256. -/
structure Arc4context where
  x : BitVec 8
  y : BitVec 8
  state : Vector (BitVec 8) 256

/-- `state[i]`. -/
def Arc4context.cell (c : Arc4context) (i : BitVec 8) : BitVec 8 := c.state.get i.toFin

/-- `state[i] = v`. -/
def Arc4context.setCell (c : Arc4context) (i v : BitVec 8) : Arc4context :=
  { c with state := c.state.set i.toNat v i.isLt }

/-- One turn of the key schedule: the context, `keyindex` and `stateindex`. -/
def arcfourInitTurn (key : List (BitVec 8)) (s : Arc4context × ℕ × BitVec 8) (counter : ℕ) :
    Arc4context × ℕ × BitVec 8 :=
  let (c, keyindex, stateindex) := s
  let t := c.cell (BitVec.ofNat 8 counter)
  let stateindex := stateindex + key.getD keyindex 0 + t
  let u := c.cell stateindex
  let c := (c.setCell stateindex t).setCell (BitVec.ofNat 8 counter) u
  (c, if keyindex + 1 ≥ key.length then 0 else keyindex + 1, stateindex)

def arcfourInit (key : List (BitVec 8)) : Arc4context :=
  ((List.range 256).foldl (arcfourInitTurn key)
    (⟨0, 0, Vector.ofFn fun i => BitVec.ofNat 8 i⟩, 0, 0)).1

def arcfourByte (c : Arc4context) : BitVec 8 × Arc4context :=
  let x := c.x + 1
  let sx := c.cell x
  let y := sx + c.y
  let sy := c.cell y
  let c := ({ c with x := x, y := y }.setCell y sx).setCell x sy
  (c.cell (sx + sy), c)

def arcfourEncrypt (c : Arc4context) (src : List (BitVec 8)) : List (BitVec 8) × Arc4context :=
  cipher arcfourByte c src

def crc32Poly : BitVec 32 := 0x04c11db7

def crc32ReverseBit (data : BitVec 8) : BitVec 8 :=
  ((data <<< 7) &&& 0x80) ||| ((data <<< 5) &&& 0x40) ||| ((data <<< 3) &&& 0x20) |||
    ((data <<< 1) &&& 0x10) ||| ((data >>> 1) &&& 0x08) ||| ((data >>> 3) &&& 0x04) |||
    ((data >>> 5) &&& 0x02) ||| ((data >>> 7) &&& 0x01)

/-- An entry of `crc32_table`, as `crc32_init` fills it in. -/
def crc32Table (i : BitVec 8) : BitVec 32 :=
  let c := (List.range 8).foldl
    (fun (c : BitVec 32) _ =>
      if c &&& 0x80000000 != 0 then (c <<< 1) ^^^ crc32Poly else c <<< 1)
    ((crc32ReverseBit i).setWidth 32 <<< 24)
  ofBytes (crc32ReverseBit (c.extractLsb' 24 8)) (crc32ReverseBit (c.extractLsb' 16 8))
    (crc32ReverseBit (c.extractLsb' 8 8)) (crc32ReverseBit (c.extractLsb' 0 8))

def getcrc32 (buf : List (BitVec 8)) : BitVec 32 :=
  ~~~buf.foldl (fun crc b => crc32Table ((crc ^^^ b.setWidth 32).setWidth 8) ^^^ (crc >>> 8))
    0xffffffff

end Rtl8821cu.Arc4
