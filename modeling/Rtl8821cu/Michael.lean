import Rtl8821cu.LibBytes

/-! The Michael message integrity code (`core/rtw_security.c`). -/
namespace Rtl8821cu.Michael
open Bytes

structure MicData where
  K0 : BitVec 32
  K1 : BitVec 32
  L : BitVec 32
  R : BitVec 32
  M : BitVec 32
  nBytesInM : ℕ

def secmicgetuint32 (p : List (BitVec 8)) : BitVec 32 := BitVec.ofNat 32 (ofLe (p.take 4))

def secmicputuint32 (val : BitVec 32) : List (BitVec 8) := leBytes 4 val.toNat

/-- `rtw_secmicsetkey`, with `secmicclear`. -/
def rtwSecmicsetkey (key : List (BitVec 8)) : MicData :=
  let K0 := secmicgetuint32 key
  let K1 := secmicgetuint32 (key.drop 4)
  ⟨K0, K1, K0, K1, 0, 0⟩

/-- `rtw_secmicappendbyte`: a full word is mixed into the two halves of the state. -/
def rtwSecmicappendbyte (d : MicData) (b : BitVec 8) : MicData :=
  let M := d.M ||| b.setWidth 32 <<< (8 * d.nBytesInM)
  if d.nBytesInM + 1 ≥ 4 then
    let L := d.L ^^^ M
    let R := d.R ^^^ L.rotateLeft 17
    let L := L + R
    let R := R ^^^ (((L &&& 0xff00ff00#32) >>> 8) ||| ((L &&& 0x00ff00ff#32) <<< 8))
    let L := L + R
    let R := R ^^^ L.rotateLeft 3
    let L := L + R
    let R := R ^^^ L.rotateRight 2
    let L := L + R
    { d with L := L, R := R, M := 0, nBytesInM := 0 }
  else { d with M := M, nBytesInM := d.nBytesInM + 1 }

def rtwSecmicappend (d : MicData) (src : List (BitVec 8)) : MicData :=
  src.foldl rtwSecmicappendbyte d

/-- The padding loop of `rtw_secgetmic`; fewer than four bytes are missing in the word. -/
def padWord : ℕ → MicData → MicData
  | 0, d => d
  | n + 1, d => if d.nBytesInM = 0 then d else padWord n (rtwSecmicappendbyte d 0)

def rtwSecgetmic (d : MicData) : List (BitVec 8) :=
  let d := padWord 3 (rtwSecmicappend d [0x5a, 0, 0, 0, 0])
  secmicputuint32 d.L ++ secmicputuint32 d.R

/-- The pseudo header of the code: the destination and source addresses picked by the ToDS and
FromDS bits of the header, and the priority. -/
def pseudoHeader (header : ℕ → BitVec 8) (pri : BitVec 8) : List (BitVec 8) :=
  let addr (i : ℕ) := (List.range 6).map fun k => header (i + k)
  (if (header 1).getLsbD 0 then
    addr 16 ++ if (header 1).getLsbD 1 then addr 24 else addr 10
  else
    addr 4 ++ if (header 1).getLsbD 1 then addr 16 else addr 10) ++ [pri, 0, 0, 0]

/-- `rtw_seccalctkipmic`, the code that `recvframe_chkmic` compares with the one received. -/
def rtwSeccalctkipmic (key : List (BitVec 8)) (header : ℕ → BitVec 8) (data : List (BitVec 8))
    (pri : BitVec 8) : List (BitVec 8) :=
  rtwSecgetmic (rtwSecmicappend (rtwSecmicappend (rtwSecmicsetkey key) (pseudoHeader header pri))
    data)

/-- The code is eight bytes. -/
@[simp] theorem length_rtwSecgetmic (d : MicData) : (rtwSecgetmic d).length = 8 := by
  simp [rtwSecgetmic, secmicputuint32]

end Rtl8821cu.Michael
