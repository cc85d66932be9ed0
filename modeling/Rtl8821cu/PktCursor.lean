import Mathlib

/-! The packet cursor of the transmit path (`os_dep/linux/xmit_linux.c`) and the local buffers that
it fills. -/
namespace Rtl8821cu.PktCursor

/-- `struct pkt_file`: `cur_addr` behind `buf_start`, and `pkt_len` bytes are left. -/
structure PktFile where
  buf : List (BitVec 8)
  curAddr : ℕ
  pktLen : ℕ
  cur_add : curAddr + pktLen = buf.length

def rtwOpenPktfile (pkt : List (BitVec 8)) : PktFile := ⟨pkt, 0, pkt.length, Nat.zero_add _⟩

def rtwRemainderLen (f : PktFile) : ℕ := f.buf.length - f.curAddr

/-- `len` of `_rtw_pktfile_read`. -/
def readLen (f : PktFile) (rlen : ℕ) : ℕ :=
  if rtwRemainderLen f < rlen then rtwRemainderLen f else rlen

theorem readLen_le (f : PktFile) (rlen : ℕ) : readLen f rlen ≤ f.pktLen := by
  have := f.cur_add
  rw [readLen, rtwRemainderLen]
  split_ifs <;> omega

/-- `_rtw_pktfile_read`: the bytes that it copies, and the cursor behind them. -/
def rtwPktfileRead (f : PktFile) (rlen : ℕ) : List (BitVec 8) × PktFile :=
  ((f.buf.drop (f.buf.length - f.pktLen)).take (readLen f rlen),
    { f with
      curAddr := f.curAddr + readLen f rlen
      pktLen := f.pktLen - readLen f rlen
      cur_add := by
        have := f.cur_add
        have := readLen_le f rlen
        omega })

/-- An `int` given as the `uint` that `_rtw_pktfile_read` takes. -/
def toUint (n : ℤ) : ℕ := (n % 2 ^ 32).toNat

/-- A local buffer after some bytes are copied to its start. -/
def fill (buf bytes : List (BitVec 8)) : List (BitVec 8) := bytes ++ buf.drop bytes.length

/-- `n` bytes of a buffer at an offset. -/
def bytesAt (l : List (BitVec 8)) (off n : ℕ) : List (BitVec 8) := (l.drop off).take n

variable (f : PktFile) {n : ℕ}

theorem readLen_eq (n : ℕ) : readLen f n = min n f.pktLen := by
  have := f.cur_add
  rw [readLen, rtwRemainderLen]
  split_ifs <;> omega

@[simp] theorem read_buf (n : ℕ) : (rtwPktfileRead f n).2.buf = f.buf := rfl

@[simp] theorem read_curAddr (n : ℕ) :
    (rtwPktfileRead f n).2.curAddr = f.curAddr + min n f.pktLen := by
  rw [← readLen_eq]
  rfl

@[simp] theorem read_pktLen (n : ℕ) : (rtwPktfileRead f n).2.pktLen = f.pktLen - n := by
  have h := readLen_eq f n
  show f.pktLen - readLen f n = f.pktLen - n
  omega

/-- What is read stands at the cursor. -/
theorem read_bytes (n : ℕ) : (rtwPktfileRead f n).1 = (f.buf.drop f.curAddr).take n := by
  have hcur := f.cur_add
  have hlen := readLen_eq f n
  show (f.buf.drop (f.buf.length - f.pktLen)).take (readLen f n) = _
  rw [show f.buf.length - f.pktLen = f.curAddr by omega]
  rcases Nat.le_or_le n f.pktLen with h | h
  · rw [hlen, min_eq_left h]
  · have hall : (f.buf.drop f.curAddr).length = f.pktLen := by
      rw [List.length_drop]
      omega
    rw [hlen, min_eq_right h, List.take_of_length_le hall.le, List.take_of_length_le (by omega)]

/-- A read of nothing leaves the cursor where it is. -/
theorem read_zero : rtwPktfileRead f 0 = ([], f) := by
  have hlen : readLen f 0 = 0 := by rw [readLen_eq, Nat.zero_min]
  obtain ⟨buf, curAddr, pktLen, hcur⟩ := f
  simp only [rtwPktfileRead, hlen, List.take_zero, Nat.add_zero, Nat.sub_zero]

theorem length_read (n : ℕ) : (rtwPktfileRead f n).1.length = min n f.pktLen := by
  have := f.cur_add
  rw [read_bytes, List.length_take, List.length_drop]
  omega

theorem getD_fill_of_lt {buf bytes : List (BitVec 8)} {i : ℕ} (h : i < bytes.length) :
    (fill buf bytes).getD i 0 = bytes.getD i 0 := by
  rw [fill, List.getD_append _ _ _ _ h]

theorem fill_nil (buf : List (BitVec 8)) : fill buf [] = buf := rfl

/-- A byte of a buffer that was read from the packet. -/
theorem getD_fill_read (buf : List (BitVec 8)) {i : ℕ} (hi : i < n) (hlen : i < f.pktLen) :
    (fill buf (rtwPktfileRead f n).1).getD i 0 = f.buf.getD (f.curAddr + i) 0 := by
  have hread := length_read f n
  rw [getD_fill_of_lt (by omega), read_bytes]
  simp only [List.getD_eq_getElem?_getD, List.getElem?_take_of_lt hi, List.getElem?_drop]

/-- Bytes of a buffer that were read from the packet. -/
theorem bytesAt_fill_read {buf : List (BitVec 8)} {i k : ℕ} (hn : i + k ≤ n)
    (hlen : i + k ≤ f.pktLen) :
    bytesAt (fill buf (rtwPktfileRead f n).1) i k = bytesAt f.buf (f.curAddr + i) k := by
  have hread := length_read f n
  have hdrop : k ≤ ((rtwPktfileRead f n).1.drop i).length := by
    rw [List.length_drop]
    omega
  rw [bytesAt, fill, List.drop_append_of_le_length (by omega), List.take_append_of_le_length hdrop,
    read_bytes, List.drop_take, List.take_take, min_eq_left (by omega), List.drop_drop]
  rfl

/-- Nothing is read where the packet ends. -/
theorem read_of_end (h : f.pktLen = 0) (n : ℕ) : (rtwPktfileRead f n).1 = [] := by
  have hread := length_read f n
  rw [h, Nat.min_zero] at hread
  exact List.eq_nil_of_length_eq_zero hread

end Rtl8821cu.PktCursor
