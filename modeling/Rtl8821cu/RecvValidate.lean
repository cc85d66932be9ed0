import Rtl8821cu.RecvPn

/-! Validation of a received data frame followed by decryption (`validate_recv_data_frame`,
`decryptor`), and what a frame that fails decryption leaves in the packet-number caches. -/
namespace Rtl8821cu.Recv

inductive RecvRet
  | fail
  | success
  | handled
  deriving DecidableEq, Repr

/-- `dot11AuthAlgrthm`. -/
inductive AuthAlgrthm
  | openSystem
  | shared
  | ieee8021x
  | auto
  | wapi
  | maxNum
  deriving DecidableEq, Repr

/-- What the receive path keeps per station. -/
structure StaRecv where
  rxcache : RxCache
  tidRxseq : ℕ → BitVec 16
  bmcTidRxseq : ℕ → BitVec 16
  nonqosRxseq : BitVec 16
  nonqosBmcRxseq : BitVec 16
  amsduDisable : Bool
  dot118021XPrivacy : SecurityType

structure SecurityPriv where
  ivSeq : BitVec 2 → BitVec 64
  dot11AuthAlgrthm : AuthAlgrthm
  dot11PrivacyAlgrthm : SecurityType
  dot118021XGrpPrivacy : SecurityType

structure RecvState where
  sta : StaRecv
  security : SecurityPriv
  stationState : Bool
  isAp : Bool

/-- The outcome of the header check of the interface's mode, with the sender it found. -/
inductive HdrCheck
  | fail
  | handled
  | success (psta : Bool)
  deriving DecidableEq

/-- A received data frame: its bytes, the attributes parsed from the frame control field and the
RX descriptor, the header check, and the verdicts of the three software decryption routines. -/
structure DataFrame where
  byte : ℕ → BitVec 8
  a4 : Bool
  qos : Bool
  order : Bool
  privacy : Bool
  seqNum : BitVec 12
  fragNum : BitVec 4
  raMcast : Bool
  dstIsSelf : Bool
  descEncrypt : SecurityType
  bdecrypted : Bool
  hdr : HdrCheck
  tkipDecrypt : Bool
  aesDecrypt : Bool
  gcmpDecrypt : Bool

section Fields
variable (f : DataFrame)

def DataFrame.a4Shift : ℕ := if f.a4 then 6 else 0

/-- The low byte of the QoS control field. -/
def DataFrame.qc : BitVec 8 := f.byte (24 + f.a4Shift)

def DataFrame.amsdu : Bool := f.qos && f.qc.getLsbD 7

def DataFrame.priority : ℕ := if f.qos then f.qc.toNat % 16 else 0

def DataFrame.hdrlen : ℕ := (if f.qos then 26 else 24) + f.a4Shift + (if f.order then 4 else 0)

/-- The eight bytes behind the MAC header, little endian. -/
def DataFrame.ivHdr : BitVec 64 :=
  let b := fun i => f.byte (f.hdrlen + i)
  (b 7 ++ b 6 ++ b 5 ++ b 4 ++ b 3 ++ b 2 ++ b 1 ++ b 0 : BitVec 64)

def DataFrame.seqCtrl : BitVec 16 := f.seqNum ++ f.fragNum

end Fields

/-- `SET_ICE_IV_LEN`, the first length. -/
def ivLen : SecurityType → ℕ
  | .wep40 | .wep104 => 4
  | .tkip | .aes | .gcmp | .gcmp256 | .ccmp256 => 8
  | .sms4 => 18
  | .noPrivacy | .tkipWtmic => 0

def getEncryAlgo (s : RecvState) (f : DataFrame) : SecurityType :=
  match s.security.dot11AuthAlgrthm with
  | .openSystem | .shared | .auto | .wapi => s.security.dot11PrivacyAlgrthm
  | .ieee8021x =>
      if f.raMcast then s.security.dot118021XGrpPrivacy else s.sta.dot118021XPrivacy
  | .maxNum => f.descEncrypt

def etherType (f : DataFrame) (encrypt : SecurityType) : BitVec 16 :=
  let off := f.hdrlen + ivLen encrypt + 6
  f.byte off ++ f.byte (off + 1)

def eapolType : BitVec 16 := 0x888e

/-- Duplicate detection by sequence control; `none` is `_FAIL`. -/
def recvDecache (s : StaRecv) (f : DataFrame) : Option StaRecv :=
  let tid := f.priority
  let seqCtrl := f.seqCtrl
  if 15 < tid then none
  else if f.qos then
    if f.raMcast then
      if seqCtrl = s.bmcTidRxseq tid then none
      else some { s with bmcTidRxseq := Function.update s.bmcTidRxseq tid seqCtrl }
    else
      if seqCtrl = s.tidRxseq tid then none
      else some { s with tidRxseq := Function.update s.tidRxseq tid seqCtrl }
  else
    if f.raMcast then
      if seqCtrl = s.nonqosBmcRxseq then none else some { s with nonqosBmcRxseq := seqCtrl }
    else
      if seqCtrl = s.nonqosRxseq then none else some { s with nonqosRxseq := seqCtrl }

/-- The packet-number step of `validate_recv_data_frame`: it reads the encryption type the RX
descriptor reported. -/
def pnDecache (s : RecvState) (f : DataFrame) : Option RecvState :=
  if !f.raMcast then
    (recvUcastPnDecache s.sta.rxcache f.descEncrypt f.priority f.ivHdr).map fun c =>
      { s with sta := { s.sta with rxcache := c } }
  else
    (recvBcastPnDecache s.security.ivSeq s.stationState f.descEncrypt f.ivHdr).map fun iv =>
      { s with security := { s.security with ivSeq := iv } }

/-- Plaintext in a protected network, forwarded EAPOL and cloaked A-MSDUs are dropped. -/
def plaintextDropped (s : RecvState) (f : DataFrame) (encrypt : SecurityType) : Bool :=
  if s.security.dot11PrivacyAlgrthm = .noPrivacy then false
  else if f.raMcast then !f.privacy
  else
    let ether := etherType f encrypt
    if s.security.dot11AuthAlgrthm = .ieee8021x then
      (!f.privacy && decide (ether ≠ eapolType)) || (!f.privacy && f.amsdu) ||
        (decide (ether = eapolType) && s.isAp && decide (s.sta.dot118021XPrivacy = .noPrivacy) &&
          !f.dstIsSelf)
    else !f.privacy

/-- Returns the verdict, the state and the encryption type left in the attributes. -/
def validateRecvDataFrame (s : RecvState) (f : DataFrame) :
    RecvRet × RecvState × SecurityType :=
  match f.hdr with
  | .fail => (.fail, s, f.descEncrypt)
  | .handled => (.handled, s, f.descEncrypt)
  | .success false => (.fail, s, f.descEncrypt)
  | .success true =>
      if s.sta.amsduDisable && f.amsdu then (.fail, s, f.descEncrypt)
      else
        match recvDecache s.sta f with
        | none => (.fail, s, f.descEncrypt)
        | some sta =>
            let s := { s with sta := sta }
            match pnDecache s f with
            | none => (.fail, s, f.descEncrypt)
            | some s =>
                let encrypt := if f.privacy then getEncryAlgo s f else .noPrivacy
                if plaintextDropped s f encrypt then (.fail, s, encrypt)
                else (.success, s, encrypt)

/-- `false` when the frame is freed. -/
def decryptor (f : DataFrame) (encrypt : SecurityType) : Bool :=
  if encrypt ≠ .noPrivacy ∧ f.bdecrypted = false then
    match encrypt with
    | .tkip => f.tkipDecrypt
    | .aes | .ccmp256 => f.aesDecrypt
    | .gcmp | .gcmp256 => f.gcmpDecrypt
    | _ => true
  else true

/-- The frame passes validation and is then rejected by the decryption. -/
def RejectedByDecryptor (s : RecvState) (f : DataFrame) : Prop :=
  (validateRecvDataFrame s f).1 = .success ∧
    decryptor f (validateRecvDataFrame s f).2.2 = false

instance (s : RecvState) (f : DataFrame) : Decidable (RejectedByDecryptor s f) :=
  inferInstanceAs (Decidable (_ ∧ _))

/-- The unicast cache per TID and the broadcast cache per key id. -/
def pnCaches (s : RecvState) : (ℕ → BitVec 64) × (BitVec 2 → BitVec 64) :=
  (s.sta.rxcache.iv, s.security.ivSeq)

/-- The frame gives the packet-number step nothing to store: the descriptor does not report
CCMP, or the number is already the cached one, or, for a unicast frame, it is not newer than
the cached one, or, for a group-addressed frame, the interface is not a station. -/
def PnIdle (s : RecvState) (f : DataFrame) : Prop :=
  f.descEncrypt ≠ .aes ∨
    if f.raMcast then
      s.stationState = false ∨ s.security.ivSeq (ccmph2Keyid f.ivHdr) = ccmph2Pn f.ivHdr
    else
      validPnChk (ccmph2Pn f.ivHdr) (ccmph2Pn (s.sta.rxcache.iv f.priority)) = false ∨
        s.sta.rxcache.iv f.priority = f.ivHdr

section Lemmas
variable {s s' : RecvState} {f : DataFrame}

theorem recvDecache_rxcache {sta : StaRecv} (h : recvDecache s.sta f = some sta) :
    sta.rxcache = s.sta.rxcache := by
  simp only [recvDecache] at h
  split_ifs at h <;> rw [← Option.some.inj h]

theorem update_eq_iff {ι β : Type*} [DecidableEq ι] (g : ι → β) (i : ι) (v : β) :
    Function.update g i v = g ↔ g i = v := by
  constructor
  · intro h
    rw [← h, Function.update_self]
  · intro h
    rw [← h, Function.update_eq_self]

theorem recvUcast_iv {c c' : RxCache} {e : SecurityType} {tid : ℕ} {hdr : BitVec 64}
    (h : recvUcastPnDecache c e tid hdr = some c') :
    c'.iv = c.iv ↔ e ≠ .aes ∨ validPnChk (ccmph2Pn hdr) (ccmph2Pn (c.iv tid)) = false ∨
      c.iv tid = hdr := by
  unfold recvUcastPnDecache at h
  split_ifs at h with htid he hv
  · obtain rfl := Option.some.inj h
    rw [update_eq_iff]
    simp [he, hv]
  · obtain rfl := Option.some.inj h
    simp [hv]
  · obtain rfl := Option.some.inj h
    simp [he]

theorem recvBcast_ivSeq {iv iv' : BitVec 2 → BitVec 64} {st : Bool} {e : SecurityType}
    {hdr : BitVec 64} (h : recvBcastPnDecache iv st e hdr = some iv') :
    iv' = iv ↔ e ≠ .aes ∨ st = false ∨ iv (ccmph2Keyid hdr) = ccmph2Pn hdr := by
  simp only [recvBcastPnDecache] at h
  split_ifs at h with hcond hv
  · obtain rfl := Option.some.inj h
    rw [update_eq_iff]
    simp [hcond.1, hcond.2]
  · obtain rfl := Option.some.inj h
    simp only [true_iff]
    rcases not_and_or.mp hcond with he | hs
    · exact Or.inl he
    · exact Or.inr (Or.inl (by simpa using hs))

/-- The packet-number step leaves both caches as they were exactly on idle frames. -/
theorem pnDecache_caches (h : pnDecache s f = some s') :
    pnCaches s' = pnCaches s ↔ PnIdle s f := by
  unfold pnDecache at h
  cases hm : f.raMcast with
  | true =>
    simp only [hm, Bool.not_true, Bool.false_eq_true, if_false, Option.map_eq_some_iff] at h
    obtain ⟨iv, hiv, rfl⟩ := h
    simp [pnCaches, PnIdle, hm, recvBcast_ivSeq hiv]
  | false =>
    simp only [hm, Bool.not_false, if_true, Option.map_eq_some_iff] at h
    obtain ⟨c, hc, rfl⟩ := h
    simp [pnCaches, PnIdle, hm, recvUcast_iv hc]

/-- A validated frame went through the packet-number step, and nothing later touches the
caches. -/
theorem validate_success (h : (validateRecvDataFrame s f).1 = .success) :
    ∃ sta, recvDecache s.sta f = some sta ∧
      pnDecache { s with sta := sta } f = some (validateRecvDataFrame s f).2.1 := by
  unfold validateRecvDataFrame at h ⊢
  cases hh : f.hdr with
  | fail => simp [hh] at h
  | handled => simp [hh] at h
  | success psta =>
    cases psta with
    | false => simp [hh] at h
    | true =>
      by_cases ha : (s.sta.amsduDisable && f.amsdu) = true
      · simp [hh, ha] at h
      · simp only [hh, if_neg ha] at h ⊢
        cases hd : recvDecache s.sta f with
        | none => simp [hd] at h
        | some sta =>
          simp only [hd] at h ⊢
          refine ⟨sta, rfl, ?_⟩
          cases hp : pnDecache { s with sta := sta } f with
          | none => simp [hp] at h
          | some s₁ =>
            dsimp only
            split_ifs <;> rfl

end Lemmas

/-- A frame that fails decryption leaves the caches as they were exactly if it gave the
packet-number step nothing to store. -/
theorem rejected_keeps_pn_iff (s : RecvState) (f : DataFrame) (h : RejectedByDecryptor s f) :
    pnCaches (validateRecvDataFrame s f).2.1 = pnCaches s ↔ PnIdle s f := by
  obtain ⟨sta, hd, hp⟩ := validate_success h.1
  have hcache := recvDecache_rxcache hd
  have hsame : pnCaches { s with sta := sta } = pnCaches s := by simp [pnCaches, hcache]
  have hidle : PnIdle { s with sta := sta } f ↔ PnIdle s f := by simp [PnIdle, hcache]
  rw [← hsame, pnDecache_caches hp, hidle]

/-- A station in a CCMP network with empty caches. -/
def ccmpStation : RecvState where
  sta :=
    { rxcache := ⟨fun _ => 0, 0⟩, tidRxseq := fun _ => 0xFFFF, bmcTidRxseq := fun _ => 0xFFFF
      nonqosRxseq := 0xFFFF, nonqosBmcRxseq := 0xFFFF, amsduDisable := false
      dot118021XPrivacy := .aes }
  security :=
    { ivSeq := fun _ => 0, dot11AuthAlgrthm := .ieee8021x, dot11PrivacyAlgrthm := .aes
      dot118021XGrpPrivacy := .aes }
  stationState := true
  isAp := false

/-- A group-addressed frame with key id 1 and packet number `0x600000000005` whose CCMP check
fails; `desc` is the type in the RX descriptor. -/
def forgedFrame (desc : SecurityType) : DataFrame where
  byte := fun i => if i = 24 then 5 else if i = 27 then 0x60 else if i = 31 then 0x60 else 0
  a4 := false
  qos := false
  order := false
  privacy := true
  seqNum := 1
  fragNum := 0
  raMcast := true
  dstIsSelf := false
  descEncrypt := desc
  bdecrypted := false
  hdr := .success true
  tkipDecrypt := false
  aesDecrypt := false
  gcmpDecrypt := false

theorem rejected_keeps_pn_no_descriptor :
    pnCaches (validateRecvDataFrame ccmpStation (forgedFrame .noPrivacy)).2.1 =
      pnCaches ccmpStation :=
  (rejected_keeps_pn_iff ccmpStation (forgedFrame .noPrivacy) (by decide)).mpr
    (Or.inl (by decide))

/-- The forged frame is rejected, and its packet number is now the one that genuine group frames
have to exceed. -/
theorem forged_frame_moves_pn :
    ¬ ∀ (s : RecvState) (f : DataFrame), RejectedByDecryptor s f →
      pnCaches (validateRecvDataFrame s f).2.1 = pnCaches s := by
  intro h
  have h1 := congrArg (fun c => c.2 1) (h ccmpStation (forgedFrame .aes) (by decide))
  revert h1
  decide

end Rtl8821cu.Recv
