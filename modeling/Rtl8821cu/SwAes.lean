import Rtl8821cu.CryptRound
import Rtl8821cu.SwIcv

/-! Software encryption and decryption with CCMP and GCMP (`core/rtw_security.c`): the receiver gets
every fragment back. -/
namespace Rtl8821cu.SwAes
open Store XmitFrag SwCrypt CryptFrame

/-- `skey`, which has 32 bytes. -/
def skey (key : ℕ → BitVec 8) : List (BitVec 8) := (List.range 32).map key

def prwskeylen (encrypt : Encrypt) : ℕ :=
  if encrypt = .ccmp256 ∨ encrypt = .gcmp256 then 32 else 16

/-- The loop of `rtw_aes_encrypt` and of `rtw_gcmp_encrypt` over the fragments that are left; `encr`
encrypts a frame with a payload of the given length in place. -/
def sealFragments (A : PktAttrib) (fragLen : ℕ)
    (encr : List (BitVec 8) → ℕ → Option (List (BitVec 8))) :
    ℕ → ℕ → (ℕ → BitVec 8) → ℕ → BitVec 8
  | 0, _, mem => mem
  | left + 1, pframe, mem =>
    let size := if left = 0 then A.lastTxcmdsz else fragLen
    let plen := size - A.hdrlen - A.encrypt.ivLen - A.encrypt.icvLen
    let mem' := match encr (load mem pframe size) plen with
      | none => mem
      | some enc => store mem pframe enc
    sealFragments A fragLen encr left (rnd4 (pframe + fragLen)) mem'

/-- `prwskey` of the sender. -/
def txSkey (sec : SecurityPriv) (A : PktAttrib) : List (BitVec 8) :=
  skey (if A.ra.isMcast then sec.dot118021XGrpKey sec.dot118021XGrpKeyid else A.uncstKey)

def rtwAesEncrypt (sec : SecurityPriv) (spp : Bool) (A : PktAttrib) (fragLen pframe : ℕ)
    (mem : ℕ → BitVec 8) : ℕ → BitVec 8 :=
  if A.encrypt = .aes ∨ A.encrypt = .ccmp256 then
    sealFragments A fragLen
      (rtwCcmpEncrypt spp (txSkey sec A) (prwskeylen A.encrypt) A.hdrlen) A.nrFrags pframe mem
  else mem

def rtwGcmpEncryptFrame (sec : SecurityPriv) (spp : Bool) (A : PktAttrib) (fragLen pframe : ℕ)
    (mem : ℕ → BitVec 8) : ℕ → BitVec 8 :=
  if A.encrypt = .gcmp ∨ A.encrypt = .gcmp256 then
    sealFragments A fragLen
      (rtwGcmpEncrypt spp (txSkey sec A) (prwskeylen A.encrypt) A.hdrlen) A.nrFrags pframe mem
  else mem

def xmitframeSwencrypt (sec : SecurityPriv) (spp : Bool) (A : PktAttrib) (fragLen pframe : ℕ)
    (mem : ℕ → BitVec 8) : ℕ → BitVec 8 :=
  match A.encrypt with
  | .wep40 | .wep104 => rtwWepEncrypt sec A fragLen pframe mem
  | .tkip => rtwTkipEncrypt sec A fragLen pframe mem
  | .aes | .ccmp256 => rtwAesEncrypt sec spp A fragLen pframe mem
  | .gcmp | .gcmp256 => rtwGcmpEncryptFrame sec spp A fragLen pframe mem
  | .noPrivacy => mem

/-- The choice of the key in `rtw_aes_decrypt` and `rtw_gcmp_decrypt`, outside a mesh. -/
def rxSkey (env : RecvEnv) (f : RecvFrame) : Option (List (BitVec 8)) :=
  match env.stainfo f.ta with
  | none => none
  | some uncstKey =>
    if f.ra.isMcast then
      if env.sec.binstallGrpkey = false then none
      else if env.sec.dot118021XGrpKeyid ≠ f.keyIndex then none
      else some (skey (env.sec.dot118021XGrpKey f.keyIndex))
    else some (skey uncstKey)

/-- What is left to do with the key. With less than a header the length that is left is negative,
and it is passed on as unsigned. -/
def openFrame (env : RecvEnv) (f : RecvFrame)
    (decr : List (BitVec 8) → List (BitVec 8) → Option (List (BitVec 8))) : Outcome :=
  match rxSkey env f with
  | none => .rejected
  | some key =>
    if f.data.length < f.hdrlen then .fault
    else
      match decr key f.data with
      | none => .rejected
      | some data => .accepted data

def rtwAesDecrypt (env : RecvEnv) (spp : Bool) (f : RecvFrame) : Outcome :=
  if f.encrypt = .aes ∨ f.encrypt = .ccmp256 then
    openFrame env f fun key => rtwCcmpDecrypt spp key (prwskeylen f.encrypt) f.hdrlen
  else .accepted f.data

def rtwGcmpDecryptFrame (env : RecvEnv) (spp : Bool) (f : RecvFrame) : Outcome :=
  if f.encrypt = .gcmp ∨ f.encrypt = .gcmp256 then
    openFrame env f fun key => rtwGcmpDecrypt spp key (prwskeylen f.encrypt) f.hdrlen
  else .accepted f.data

/-- What `decryptor` calls for CCMP and GCMP. -/
def otherDecrypt (env : RecvEnv) (spp : Bool) (f : RecvFrame) : Outcome :=
  if f.encrypt = .aes ∨ f.encrypt = .ccmp256 then rtwAesDecrypt env spp f
  else rtwGcmpDecryptFrame env spp f

section Loop

variable {A : PktAttrib} {fragLen : ℕ} {encr : List (BitVec 8) → ℕ → Option (List (BitVec 8))}

/-- A fragment as it is sent: encrypted, if encryption works. -/
def sentFragment (A : PktAttrib) (encr : List (BitVec 8) → ℕ → Option (List (BitVec 8)))
    (size : ℕ) (l : List (BitVec 8)) : List (BitVec 8) :=
  (encr l (size - A.hdrlen - A.encrypt.ivLen - A.encrypt.icvLen)).getD l

theorem store_load_same (mem : ℕ → BitVec 8) (a n : ℕ) : store mem a (load mem a n) = mem := by
  funext i
  by_cases h : a ≤ i ∧ i < a + n
  · have hcell := holdsAt_store mem a (load mem a n) (i - a) (mem i)
      (by simp [load, show i - a < n by omega, Nat.add_sub_cancel' h.1])
    rwa [Nat.add_sub_cancel' h.1] at hcell
  · exact store_of_disjoint mem _ (by rw [length_load]; omega)

/-- The step of the loop stores the fragment as it is sent. -/
theorem sealStep_eq (size pframe : ℕ) (mem : ℕ → BitVec 8) :
    (match encr (load mem pframe size) (size - A.hdrlen - A.encrypt.ivLen - A.encrypt.icvLen) with
      | none => mem
      | some enc => store mem pframe enc) =
      store mem pframe (sentFragment A encr size (load mem pframe size)) := by
  rw [sentFragment]
  cases encr (load mem pframe size) (size - A.hdrlen - A.encrypt.ivLen - A.encrypt.icvLen) with
  | none => exact (store_load_same mem pframe size).symm
  | some enc => rfl

theorem load_sealStep {size pframe : ℕ} {mem : ℕ → BitVec 8}
    (h : ∀ l : List (BitVec 8), l.length = size → (sentFragment A encr size l).length = size) :
    load (store mem pframe (sentFragment A encr size (load mem pframe size))) pframe size =
      sentFragment A encr size (load mem pframe size) := by
  have hload := load_of_holdsAt
    (holdsAt_store mem pframe (sentFragment A encr size (load mem pframe size)))
  rwa [h _ (length_load mem pframe size)] at hload

theorem sealFragments_of_lt {n pframe i : ℕ} (h : i < pframe) (mem : ℕ → BitVec 8) :
    sealFragments A fragLen encr n pframe mem i = mem i := by
  induction n generalizing pframe mem with
  | zero => rfl
  | succ n ih =>
    have hnext := le_rnd4 (pframe + fragLen)
    rw [sealFragments, ih (by omega), sealStep_eq]
    exact store_of_lt _ _ h

/-- Each fragment is encrypted by itself, if encryption keeps the size. -/
theorem load_sealFragments {n pframe k : ℕ} {mem : ℕ → BitVec 8}
    (hfrag : ∀ l : List (BitVec 8), l.length = fragLen →
      (sentFragment A encr fragLen l).length = fragLen)
    (hlast : ∀ l : List (BitVec 8), l.length = A.lastTxcmdsz →
      (sentFragment A encr A.lastTxcmdsz l).length = A.lastTxcmdsz) (hk : k < n) :
    let size := if k + 1 = n then A.lastTxcmdsz else fragLen
    load (sealFragments A fragLen encr n pframe mem) (fragAddr fragLen pframe k) size =
      sentFragment A encr size (load mem (fragAddr fragLen pframe k) size) := by
  induction n generalizing pframe k mem with
  | zero => omega
  | succ n ih =>
    have hnext := le_rnd4 (pframe + fragLen)
    dsimp only
    rw [sealFragments, sealStep_eq]
    cases k with
    | zero =>
      rw [fragAddr]
      by_cases hn : n = 0
      · subst hn
        rw [if_pos rfl, sealFragments]
        exact load_sealStep hlast
      · have hmore : ¬0 + 1 = n + 1 := by omega
        rw [if_neg hn, if_neg hmore,
          load_congr fun i _ hi => sealFragments_of_lt (by omega) _]
        exact load_sealStep hfrag
    | succ k =>
      have hn : n ≠ 0 := by omega
      have hle := le_fragAddr fragLen (rnd4 (pframe + fragLen)) k
      simp only [Nat.add_right_cancel_iff]
      rw [if_neg hn, ← fragAddr_rnd4, ih (by omega)]
      congr 1
      refine load_congr fun i hi _ => store_of_ge _ _ ?_
      rw [hfrag _ (length_load _ _ _)]
      omega

end Loop

/-- The suite of a cipher, and the key that it takes of what is passed on. -/
def suiteOf (encrypt : Encrypt) : Suite :=
  match encrypt with
  | .ccmp256 => .ccmp256
  | .gcmp | .gcmp256 => .gcmp
  | _ => .ccmp

def tkOf (encrypt : Encrypt) (key : List (BitVec 8)) : List (BitVec 8) :=
  if encrypt = .gcmp ∨ encrypt = .gcmp256 then key.take (prwskeylen encrypt) else key

/-- The ciphers with a packet number and a MIC. -/
def IsAead (encrypt : Encrypt) : Prop :=
  encrypt = .aes ∨ encrypt = .ccmp256 ∨ encrypt = .gcmp ∨ encrypt = .gcmp256

section Suites

variable {sec : SecurityPriv} {env : RecvEnv} {spp : Bool} {A : PktAttrib} {f : RecvFrame}
  {fragLen : ℕ}

theorem ivLen_aead {e : Encrypt} (h : IsAead e) : e.ivLen = 8 := by
  rcases h with h | h | h | h <;> rw [h] <;> rfl

theorem icvLen_aead {e : Encrypt} (h : IsAead e) : e.icvLen = (suiteOf e).micLen := by
  rcases h with h | h | h | h <;> rw [h] <;> rfl

/-- All senders are the same loop. -/
theorem xmitframeSwencrypt_eq (h : IsAead A.encrypt) (pframe : ℕ) (mem : ℕ → BitVec 8) :
    xmitframeSwencrypt sec spp A fragLen pframe mem =
      sealFragments A fragLen (encryptInPlace (suiteOf A.encrypt) spp
        (tkOf A.encrypt (txSkey sec A)) A.hdrlen) A.nrFrags pframe mem := by
  unfold xmitframeSwencrypt rtwAesEncrypt rtwGcmpEncryptFrame
  rcases h with h | h | h | h <;> rw [h] <;> rfl

/-- All receivers are the same. -/
theorem otherDecrypt_eq (h : IsAead f.encrypt) : otherDecrypt env spp f =
    openFrame env f fun key => decryptInPlace (suiteOf f.encrypt) spp (tkOf f.encrypt key)
      f.hdrlen := by
  unfold otherDecrypt rtwAesDecrypt rtwGcmpDecryptFrame
  rcases h with h | h | h | h <;> rw [h] <;> rfl

theorem decryptor_aead (h : IsAead f.encrypt) (hsw : f.bdecrypted = false) :
    decryptor { env with other := otherDecrypt env spp } f =
      openFrame env f fun key => decryptInPlace (suiteOf f.encrypt) spp (tkOf f.encrypt key)
        f.hdrlen := by
  rw [← otherDecrypt_eq h]
  rcases h with h | h | h | h <;> simp [decryptor, hsw, h]

theorem exists_cipher {key : List (BitVec 8)} (h : key.length = 16 ∨ key.length = 32) :
    ∃ aes, Aes.aesEncryptInit key = some aes := by
  rw [Aes.aesEncryptInit, Aes.rijndaelKeySetupEnc]
  rcases h with h | h
  · exact ⟨_, by rw [if_pos h, Option.map_some]⟩
  · exact ⟨_, by rw [if_neg (by omega), if_neg (by omega), if_pos h, Option.map_some]⟩

theorem length_aad (s : Suite) (hdr data : List (BitVec 8)) :
    (s.aadNonce spp hdr data).1.length ≤ 30 := by
  have haad : ∀ fc', (aadOf spp fc' hdr).length ≤ 30 := fun fc' => by
    simp only [aadOf, putLe16, slice, List.length_append, List.length_cons, List.length_nil,
      List.length_take]
    split_ifs <;> simp <;> omega
  rw [Suite.aadNonce]
  split
  · exact haad _
  · exact haad _

/-- With a key of the right length encryption works. -/
theorem exists_ae (e : Encrypt) (h : IsAead e) (key : ℕ → BitVec 8)
    (nonce plain aad : List (BitVec 8)) (haad : aad.length ≤ 30) :
    ∃ q, (suiteOf e).ae (tkOf e (skey key)) nonce plain aad = some q := by
  have hkey : (skey key).length = 32 := by simp [skey]
  have hccm : ∀ n M, n ≤ 32 → M ≤ 16 → n = 16 ∨ n = 32 →
      ∃ q, Ccm.aesCcmAe ((skey key).take n) nonce M plain aad = some q := by
    intro n M hn hM hlen
    obtain ⟨aes, haes⟩ := @exists_cipher ((skey key).take n) (by
      rw [List.length_take_of_le (by omega)]
      exact hlen)
    exact ⟨_, by rw [Ccm.aesCcmAe, if_neg (by omega), haes, Option.map_some]⟩
  have hgcm : ∀ n, n ≤ 32 → n = 16 ∨ n = 32 →
      ∃ q, Gcm.aesGcmAe ((skey key).take n) nonce plain aad = some q := by
    intro n hn hlen
    obtain ⟨aes, haes⟩ := @exists_cipher ((skey key).take n) (by
      rw [List.length_take_of_le (by omega)]
      exact hlen)
    exact ⟨_, by rw [Gcm.aesGcmAe, haes, Option.map_some]⟩
  rcases h with h | h | h | h <;> rw [h]
  · exact hccm 16 8 (by decide) (by decide) (Or.inl rfl)
  · exact hccm 32 16 (by decide) (by decide) (Or.inr rfl)
  · exact hgcm 16 (by decide) (Or.inl rfl)
  · exact hgcm 32 (by decide) (Or.inr rfl)

end Suites

/-- Fragment `k` of a frame to encrypt with CCMP or GCMP has room for its header, IV and MIC. -/
structure AeadFragment (A : PktAttrib) (fragLen k : ℕ) : Prop where
  cipher : IsAead A.encrypt
  index : k < A.nrFrags
  hdrlen : 24 ≤ A.hdrlen
  frag : A.hdrlen + A.encrypt.ivLen + A.encrypt.icvLen ≤ fragLen
  last : A.hdrlen + A.encrypt.ivLen + A.encrypt.icvLen ≤ A.lastTxcmdsz

/-- The receiver sees a frame with the sender's attributes and has the sender's key for it. -/
structure SameSkey (env : RecvEnv) (sec : SecurityPriv) (A : PktAttrib) (f : RecvFrame) :
    Prop where
  encrypt : f.encrypt = A.encrypt
  hdrlen : f.hdrlen = A.hdrlen
  ra : f.ra = A.ra
  ta : f.ta = A.ta
  software : f.bdecrypted = false
  station : ∃ uncstKey, env.stainfo A.ta = some uncstKey ∧
    (A.ra.isMcast = false → uncstKey = A.uncstKey)
  group : A.ra.isMcast = true → env.sec.binstallGrpkey = true ∧
    env.sec.dot118021XGrpKeyid = f.keyIndex ∧
      env.sec.dot118021XGrpKey f.keyIndex = sec.dot118021XGrpKey sec.dot118021XGrpKeyid

section RoundTrip

variable {env : RecvEnv} {sec : SecurityPriv} {spp : Bool} {A : PktAttrib} {f : RecvFrame}
  {fragLen k : ℕ}

theorem rxSkey_eq (h : SameSkey env sec A f) : rxSkey env f = some (txSkey sec A) := by
  obtain ⟨uncstKey, hsta, huncst⟩ := h.station
  rw [rxSkey, h.ta, hsta, h.ra, txSkey]
  dsimp only
  cases hmc : A.ra.isMcast with
  | true =>
    obtain ⟨hinst, hid, hkey⟩ := h.group hmc
    simp [hinst, hid, hkey]
  | false => simp [huncst hmc]

theorem slice_load (mem : ℕ → BitVec 8) {a n i m : ℕ} (h : i + m ≤ n) :
    slice (load mem a n) i m = load mem (a + i) m := by
  obtain ⟨r, rfl⟩ := Nat.exists_eq_add_of_le h
  rw [Nat.add_assoc, load_add, load_add, slice, List.drop_left' (length_load _ _ _),
    List.take_left' (length_load _ _ _)]

/-- What becomes of a fragment that has room. -/
theorem sentFragment_eq (hc : IsAead A.encrypt) (hhdr : 24 ≤ A.hdrlen) {size : ℕ}
    (hroom : A.hdrlen + A.encrypt.ivLen + A.encrypt.icvLen ≤ size) {l : List (BitVec 8)}
    (hl : l.length = size) :
    ∃ enc, encryptInPlace (suiteOf A.encrypt) spp (tkOf A.encrypt (txSkey sec A)) A.hdrlen l
        (size - A.hdrlen - A.encrypt.ivLen - A.encrypt.icvLen) = some enc ∧
      sentFragment A (encryptInPlace (suiteOf A.encrypt) spp (tkOf A.encrypt (txSkey sec A))
        A.hdrlen) size l = enc ∧ enc.length = size := by
  have hiv := ivLen_aead hc
  have hicv := icvLen_aead hc
  have hlen : A.hdrlen + 8 + (size - A.hdrlen - A.encrypt.ivLen - A.encrypt.icvLen) +
      (suiteOf A.encrypt).micLen = l.length := by
    omega
  obtain ⟨⟨c, t⟩, hae⟩ := exists_ae A.encrypt hc
    (if A.ra.isMcast then sec.dot118021XGrpKey sec.dot118021XGrpKeyid else A.uncstKey)
    ((suiteOf A.encrypt).aadNonce spp l (l.drop A.hdrlen)).2
    (slice l (A.hdrlen + 8) (size - A.hdrlen - A.encrypt.ivLen - A.encrypt.icvLen))
    ((suiteOf A.encrypt).aadNonce spp l (l.drop A.hdrlen)).1 (length_aad _ _ _)
  have henc := (@encryptInPlace_eq_some_iff (suiteOf A.encrypt) spp
    (tkOf A.encrypt (txSkey sec A)) l _ A.hdrlen hhdr _ hlen).mpr ⟨c, t, hae, rfl⟩
  refine ⟨_, henc, ?_, ?_⟩
  · rw [sentFragment, henc, Option.getD_some]
  · obtain ⟨hcl, htl⟩ := length_ae hae
    rw [slice, List.length_take, List.length_drop] at hcl
    rw [List.length_append, List.length_append, length_mark (by rw [List.length_take]; omega),
      List.length_take]
    omega

theorem fragSize_room (h : AeadFragment A fragLen k) :
    A.hdrlen + A.encrypt.ivLen + A.encrypt.icvLen ≤ fragSize A fragLen k := by
  rw [fragSize]
  split
  · exact h.last
  · exact h.frag

/-- Every fragment that software encryption sends is accepted by software decryption with the key,
and its payload is back in its place. -/
theorem decryptor_xmitframeSwencrypt (hfrag : AeadFragment A fragLen k)
    (hsame : SameSkey env sec A f) {pframe : ℕ} {mem : ℕ → BitVec 8}
    (hdata : f.data = load (xmitframeSwencrypt sec spp A fragLen pframe mem)
      (fragAddr fragLen pframe k) (fragSize A fragLen k)) :
    ∃ mic, mic.length = A.encrypt.icvLen ∧
      decryptor { env with other := otherDecrypt env spp } f = .accepted
        ((suiteOf A.encrypt).mark (load mem (fragAddr fragLen pframe k)
          (A.hdrlen + A.encrypt.ivLen)) ++ (fragBody A fragLen pframe mem k ++ mic)) := by
  have hiv := ivLen_aead hfrag.cipher
  have hicv := icvLen_aead hfrag.cipher
  have hroom := fragSize_room hfrag
  have hsize : ∀ size, A.hdrlen + A.encrypt.ivLen + A.encrypt.icvLen ≤ size →
      ∀ l : List (BitVec 8), l.length = size → (sentFragment A (encryptInPlace (suiteOf A.encrypt)
        spp (tkOf A.encrypt (txSkey sec A)) A.hdrlen) size l).length = size := by
    intro size hle l hl
    obtain ⟨enc, -, henc, hlen⟩ := @sentFragment_eq sec spp A hfrag.cipher hfrag.hdrlen _ hle l hl
    rw [henc, hlen]
  have hload := @load_sealFragments A fragLen (encryptInPlace (suiteOf A.encrypt) spp
    (tkOf A.encrypt (txSkey sec A)) A.hdrlen) A.nrFrags pframe k mem (hsize _ hfrag.frag)
    (hsize _ hfrag.last) hfrag.index
  rw [xmitframeSwencrypt_eq hfrag.cipher, fragSize, hload] at hdata
  rw [← fragSize] at hdata
  obtain ⟨enc, henc, hsent, hlen⟩ := @sentFragment_eq sec spp A hfrag.cipher hfrag.hdrlen _ hroom
    (load mem (fragAddr fragLen pframe k) (fragSize A fragLen k)) (length_load _ _ _)
  rw [hsent] at hdata
  have hdec := decryptInPlace_of_encryptInPlace hfrag.hdrlen
    (by rw [length_load]; omega) henc
  refine ⟨enc.drop (enc.length - (suiteOf A.encrypt).micLen), ?_, ?_⟩
  · rw [List.length_drop]
    omega
  · have hfront : (load mem (fragAddr fragLen pframe k) (fragSize A fragLen k)).take
        (A.hdrlen + 8) = load mem (fragAddr fragLen pframe k) (A.hdrlen + A.encrypt.ivLen) := by
      have := slice_load mem (a := fragAddr fragLen pframe k)
        (show 0 + (A.hdrlen + 8) ≤ fragSize A fragLen k by omega)
      rw [slice, List.drop_zero] at this
      rw [hiv]
      exact this
    have hbody : slice (load mem (fragAddr fragLen pframe k) (fragSize A fragLen k))
        (A.hdrlen + 8) (fragSize A fragLen k - A.hdrlen - A.encrypt.ivLen - A.encrypt.icvLen) =
          fragBody A fragLen pframe mem k := by
      rw [slice_load mem (by omega), fragBody, hiv, Nat.add_comm A.hdrlen, Nat.add_assoc]
    rw [hfront, hbody] at hdec
    rw [decryptor_aead (hsame.encrypt ▸ hfrag.cipher) hsame.software, openFrame,
      rxSkey_eq hsame]
    dsimp only
    rw [if_neg (by rw [hdata, hsame.hdrlen]; omega), hsame.encrypt, hsame.hdrlen, hdata, hdec]

end RoundTrip

/-- A frame of two fragments under CCMP, and the receiver of them. -/
def ccmpAttrib : PktAttrib := ⟨.aes, 24, 2, 41, 0, 0, fun _ => 0⟩

def ccmpEnv : RecvEnv := ⟨zeroSec, fun _ => some fun _ => 0, fun _ => .rejected⟩

def ccmpMem (i : ℕ) : BitVec 8 := BitVec.ofNat 8 i

def ccmpFrame (k : ℕ) : RecvFrame :=
  ⟨load (xmitframeSwencrypt zeroSec false ccmpAttrib 48 0 ccmpMem) (fragAddr 48 0 k)
    (fragSize ccmpAttrib 48 k), 24, .aes, false, 0, 0⟩

theorem decryptor_ccmpFrames :
    (∃ mic, mic.length = 8 ∧
      decryptor { ccmpEnv with other := otherDecrypt ccmpEnv false } (ccmpFrame 0) = .accepted
        (Suite.ccmp.mark (load ccmpMem 0 32) ++ (fragBody ccmpAttrib 48 0 ccmpMem 0 ++ mic))) ∧
    ∃ mic, mic.length = 8 ∧
      decryptor { ccmpEnv with other := otherDecrypt ccmpEnv false } (ccmpFrame 1) = .accepted
        (Suite.ccmp.mark (load ccmpMem 48 32) ++ (fragBody ccmpAttrib 48 0 ccmpMem 1 ++ mic)) :=
  ⟨@decryptor_xmitframeSwencrypt ccmpEnv zeroSec false ccmpAttrib (ccmpFrame 0) 48 0
      ⟨Or.inl rfl, by decide, by decide, by decide, by decide⟩
      ⟨rfl, rfl, rfl, rfl, rfl, ⟨fun _ => 0, rfl, fun _ => rfl⟩, fun h => by cases h⟩ 0 _ rfl,
    @decryptor_xmitframeSwencrypt ccmpEnv zeroSec false ccmpAttrib (ccmpFrame 1) 48 1
      ⟨Or.inl rfl, by decide, by decide, by decide, by decide⟩
      ⟨rfl, rfl, rfl, rfl, rfl, ⟨fun _ => 0, rfl, fun _ => rfl⟩, fun h => by cases h⟩ 0 _ rfl⟩

end Rtl8821cu.SwAes
