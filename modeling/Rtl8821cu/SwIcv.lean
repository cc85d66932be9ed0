import Rtl8821cu.SwCrypt

/-! Which frames with a wrong ICV software decryption rejects, and that it restores what software
encryption sent. -/
namespace Rtl8821cu.SwCrypt
open Store LeWord StreamCipher Arc4 TkipKey XmitFrag

/-- The RC4 key of the receiver for a frame, if it has one. -/
def rxKey (env : RecvEnv) (f : RecvFrame) : Option (List (BitVec 8)) :=
  if f.encrypt = .tkip then
    match env.stainfo f.ta with
    | none => none
    | some uncstKey =>
      if f.ra.isMcast && !env.sec.binstallGrpkey then none
      else some (rc4key (if f.ra.isMcast then env.sec.dot118021XGrpKey f.keyIndex else uncstKey)
        f.ta (getTkipPn f.iv))
  else some (wepkey (env.sec.dot11DefKey f.keyIndex) f.iv)

/-- The decrypted payload is a body with its ICV. -/
def IcvRight (f : RecvFrame) (key : List (BitVec 8)) : Prop :=
  f.payload + 4 ≤ f.data.length ∧ ∃ body, f.decrypted key = f.data.take f.payload ++
    (body ++ icv body)

/-- A frame to be decrypted with WEP or TKIP in software whose ICV is not the one of its body. -/
structure WrongIcv (env : RecvEnv) (f : RecvFrame) : Prop where
  cipher : f.encrypt = .wep40 ∨ f.encrypt = .wep104 ∨ f.encrypt = .tkip
  software : f.bdecrypted = false
  icv : ∀ key, rxKey env f = some key → ¬IcvRight f key

/-- TKIP, and if there is a key the payload has room for an ICV, or the last four bytes of the frame
as it is decrypted are not zero. -/
structure Guarded (env : RecvEnv) (f : RecvFrame) : Prop where
  tkip : f.encrypt = .tkip
  payload : ∀ key, rxKey env f = some key → f.payload ≤ f.data.length ∧
    (f.payload + 4 ≤ f.data.length ∨
      (f.decrypted key).drop (f.data.length - 4) ≠ List.replicate 4 0)

section Decrypt

variable {env : RecvEnv} {f : RecvFrame} {key : List (BitVec 8)}

theorem icv_nil : icv [] = List.replicate 4 0 := by decide

theorem length_decrypted : (f.decrypted key).length = f.data.length := by
  simp only [RecvFrame.decrypted, arcfourEncrypt, List.length_append, length_cipher,
    List.length_take, List.length_drop]
  omega

/-- The comparison of `rtw_tkip_decrypt`: the last four bytes of the frame with the ICV of what the
payload holds in front of four bytes. -/
def CrcEqual (f : RecvFrame) (key : List (BitVec 8)) : Prop :=
  icv (((f.decrypted key).drop f.payload).take ((f.decrypted key).length - f.payload - 4)) =
    (f.decrypted key).drop ((f.decrypted key).length - 4)

theorem rtwTkipDecrypt_eq (env : RecvEnv) (htkip : f.encrypt = .tkip) :
    (rxKey env f = none ∧ rtwTkipDecrypt env f = .rejected) ∨
      ∃ key, rxKey env f = some key ∧ (f.data.length < f.payload →
          rtwTkipDecrypt env f = .fault) ∧
        (f.payload ≤ f.data.length → CrcEqual f key →
          rtwTkipDecrypt env f = .accepted (f.decrypted key)) ∧
        (f.payload ≤ f.data.length → ¬CrcEqual f key → rtwTkipDecrypt env f = .rejected) := by
  unfold rtwTkipDecrypt rxKey CrcEqual
  rw [if_pos htkip]
  cases env.stainfo f.ta with
  | none => exact Or.inl ⟨rfl, rfl⟩
  | some uncstKey =>
    dsimp only
    by_cases hgrp : f.ra.isMcast && !env.sec.binstallGrpkey
    · rw [if_pos hgrp, if_pos hgrp]
      exact Or.inl ⟨rfl, rfl⟩
    · rw [if_neg hgrp, if_neg hgrp]
      refine Or.inr ⟨_, rfl, fun hshort => if_pos hshort, fun hlen hcrc => ?_, fun hlen hcrc => ?_⟩
      · rw [if_neg (not_lt.mpr hlen), if_pos hcrc]
      · rw [if_neg (not_lt.mpr hlen), if_neg hcrc]

/-- With room for an ICV the comparison is the right one. -/
theorem crcEqual_iff (h : f.payload + 4 ≤ f.data.length) : CrcEqual f key ↔ IcvRight f key := by
  have hlen : (f.decrypted key).length = f.data.length := length_decrypted
  have htake : (f.decrypted key).take f.payload = f.data.take f.payload :=
    List.take_left' (by rw [List.length_take, min_eq_left (by omega)])
  have hsplit := List.take_append_drop f.payload (f.decrypted key)
  have htail : (f.decrypted key).drop ((f.decrypted key).length - 4) =
      ((f.decrypted key).drop f.payload).drop ((f.decrypted key).length - f.payload - 4) := by
    rw [List.drop_drop]
    congr 1
    omega
  unfold CrcEqual IcvRight
  rw [htail]
  rw [htake] at hsplit
  constructor
  · intro hcrc
    refine ⟨h, ((f.decrypted key).drop f.payload).take
      ((f.decrypted key).length - f.payload - 4), ?_⟩
    rw [hcrc, List.take_append_drop]
    exact hsplit.symm
  · rintro ⟨-, body, hbody⟩
    have hpayload : (f.decrypted key).drop f.payload = body ++ icv body := by
      rw [hbody]
      exact List.drop_left' (by rw [List.length_take, min_eq_left (by omega)])
    have hsize : (f.decrypted key).length - f.payload - 4 = body.length := by
      have := congrArg List.length hpayload
      simp only [List.length_drop, List.length_append, icv, length_bytes] at this
      omega
    rw [hpayload, hsize, List.take_left, List.drop_left]

/-- With less than an ICV the comparison is with zero. -/
theorem crcEqual_of_short (h : f.data.length < f.payload + 4) :
    CrcEqual f key ↔ (f.decrypted key).drop (f.data.length - 4) = List.replicate 4 0 := by
  unfold CrcEqual
  rw [length_decrypted, show f.data.length - f.payload - 4 = 0 by omega, List.take_zero, icv_nil]
  exact eq_comm

theorem decryptor_wep (hwep : f.encrypt = .wep40 ∨ f.encrypt = .wep104)
    (hsw : f.bdecrypted = false) : decryptor env f = rtwWepDecrypt env f := by
  rcases hwep with h | h <;> simp [decryptor, hsw, h]

theorem decryptor_tkip (htkip : f.encrypt = .tkip) (hsw : f.bdecrypted = false) :
    decryptor env f = rtwTkipDecrypt env f := by
  simp [decryptor, hsw, htkip]

/-- A frame with a wrong ICV is rejected exactly if it is guarded. -/
theorem rejected_iff (h : WrongIcv env f) : decryptor env f = .rejected ↔ Guarded env f := by
  have hwep : f.encrypt = .wep40 ∨ f.encrypt = .wep104 → decryptor env f ≠ .rejected := by
    intro hwep
    rw [decryptor_wep hwep h.software, rtwWepDecrypt]
    split_ifs <;> simp
  rcases h.cipher with hc | hc | htkip
  · refine ⟨fun hr => absurd hr (hwep (Or.inl hc)), fun hg => ?_⟩
    rw [hg.tkip] at hc
    cases hc
  · refine ⟨fun hr => absurd hr (hwep (Or.inr hc)), fun hg => ?_⟩
    rw [hg.tkip] at hc
    cases hc
  · rw [decryptor_tkip htkip h.software]
    rcases rtwTkipDecrypt_eq env htkip with ⟨hnone, hr⟩ | ⟨key, hkey, hfault, hacc, hrej⟩
    · refine ⟨fun _ => ⟨htkip, fun key hkey => ?_⟩, fun _ => hr⟩
      rw [hnone] at hkey
      cases hkey
    · constructor
      · intro hr
        refine ⟨htkip, fun key' hkey' => ?_⟩
        obtain rfl := Option.some.inj (hkey.symm.trans hkey')
        have hlen : f.payload ≤ f.data.length := by
          by_contra hlt
          rw [hfault (not_le.mp hlt)] at hr
          cases hr
        refine ⟨hlen, ?_⟩
        by_contra hshort
        rw [not_or, not_not] at hshort
        rw [hacc hlen ((crcEqual_of_short (not_le.mp hshort.1)).mpr hshort.2)] at hr
        cases hr
      · intro hg
        obtain ⟨hlen, hpayload⟩ := hg.payload key hkey
        refine hrej hlen fun hcrc => ?_
        by_cases hroom : f.payload + 4 ≤ f.data.length
        · exact h.icv key hkey ((crcEqual_iff hroom).mp hcrc)
        · rcases hpayload with hp | hp
          · exact hroom hp
          · exact hp ((crcEqual_of_short (not_le.mp hroom)).mp hcrc)

end Decrypt

/-- Where the encryptors find fragment `k`. -/
def fragAddr (fragLen pframe : ℕ) : ℕ → ℕ
  | 0 => pframe
  | k + 1 => rnd4 (fragAddr fragLen pframe k + fragLen)

def fragSize (A : PktAttrib) (fragLen k : ℕ) : ℕ := if k + 1 = A.nrFrags then A.lastTxcmdsz else fragLen

/-- The plaintext of fragment `k`. -/
def fragBody (A : PktAttrib) (fragLen pframe : ℕ) (mem : ℕ → BitVec 8) (k : ℕ) : List (BitVec 8) :=
  load mem (fragAddr fragLen pframe k + A.encrypt.ivLen + A.hdrlen)
    (fragSize A fragLen k - A.hdrlen - A.encrypt.ivLen - A.encrypt.icvLen)

section Encrypt

variable {A : PktAttrib} {fragLen : ℕ} {rc4 : (ℕ → BitVec 8) → List (BitVec 8)}

theorem fragAddr_rnd4 (fragLen pframe k : ℕ) :
    fragAddr fragLen (rnd4 (pframe + fragLen)) k = fragAddr fragLen pframe (k + 1) := by
  induction k with
  | zero => rfl
  | succ k ih =>
    rw [fragAddr, ih]
    rfl

theorem le_fragAddr (fragLen pframe k : ℕ) : pframe ≤ fragAddr fragLen pframe k := by
  induction k with
  | zero => exact le_refl _
  | succ k ih =>
    have := le_rnd4 (fragAddr fragLen pframe k + fragLen)
    rw [fragAddr]
    omega

theorem length_sealFragment (key body : List (BitVec 8)) :
    (sealFragment key body).length = body.length + 4 := by
  simp [sealFragment, arcfourEncrypt, icv]

/-- The encrypted fragment is the body with its ICV as one string. -/
theorem sealFragment_eq (key body : List (BitVec 8)) :
    sealFragment key body = (arcfourEncrypt (arcfourInit key) (body ++ icv body)).1 :=
  (cipher_append _ _ _ _).symm

theorem encryptFragments_of_lt {n pframe i : ℕ} (h : i < pframe) (mem : ℕ → BitVec 8) :
    encryptFragments A fragLen rc4 n pframe mem i = mem i := by
  induction n generalizing pframe mem with
  | zero => rfl
  | succ n ih =>
    have hnext := le_rnd4 (pframe + fragLen)
    rw [encryptFragments, ih (by omega)]
    exact store_of_lt _ _ (by omega)

/-- The fragment at the front of what is left, and the cells behind it. -/
theorem load_store_seal {pframe size : ℕ} {mem : ℕ → BitVec 8} {key : List (BitVec 8)}
    (hicv : A.encrypt.icvLen = 4) (hroom : A.hdrlen + A.encrypt.ivLen + 4 ≤ size) :
    load (store mem (pframe + A.encrypt.ivLen + A.hdrlen) (sealFragment key
        (load mem (pframe + A.encrypt.ivLen + A.hdrlen)
          (size - A.hdrlen - A.encrypt.ivLen - A.encrypt.icvLen)))) pframe size =
      load mem pframe (A.hdrlen + A.encrypt.ivLen) ++ sealFragment key
        (load mem (pframe + A.encrypt.ivLen + A.hdrlen)
          (size - A.hdrlen - A.encrypt.ivLen - A.encrypt.icvLen)) := by
  generalize hseal : sealFragment key (load mem (pframe + A.encrypt.ivLen + A.hdrlen)
    (size - A.hdrlen - A.encrypt.ivLen - A.encrypt.icvLen)) = l
  have hlen : l.length = size - A.hdrlen - A.encrypt.ivLen := by
    rw [← hseal, length_sealFragment, length_load]
    omega
  rw [show size = A.hdrlen + A.encrypt.ivLen + l.length by omega, load_add]
  congr 1
  · exact load_congr fun i _ hi => store_of_lt _ _ (by omega)
  · rw [show pframe + (A.hdrlen + A.encrypt.ivLen) = pframe + A.encrypt.ivLen + A.hdrlen by omega]
    exact load_of_holdsAt (holdsAt_store _ _ _)

theorem store_seal_of_ge {pframe size i : ℕ} (mem : ℕ → BitVec 8) (key : List (BitVec 8))
    (hicv : A.encrypt.icvLen = 4) (hroom : A.hdrlen + A.encrypt.ivLen + 4 ≤ size)
    (h : pframe + size ≤ i) :
    store mem (pframe + A.encrypt.ivLen + A.hdrlen) (sealFragment key
        (load mem (pframe + A.encrypt.ivLen + A.hdrlen)
          (size - A.hdrlen - A.encrypt.ivLen - A.encrypt.icvLen))) i = mem i := by
  refine store_of_ge _ _ ?_
  rw [length_sealFragment, length_load]
  omega

/-- Each fragment is encrypted by itself. -/
theorem load_encryptFragments {n pframe k : ℕ} {mem : ℕ → BitVec 8}
    (hicv : A.encrypt.icvLen = 4) (hfrag : A.hdrlen + A.encrypt.ivLen + 4 ≤ fragLen)
    (hlast : A.hdrlen + A.encrypt.ivLen + 4 ≤ A.lastTxcmdsz) (hk : k < n) :
    let addr := fragAddr fragLen pframe k
    let size := if k + 1 = n then A.lastTxcmdsz else fragLen
    load (encryptFragments A fragLen rc4 n pframe mem) addr size =
      load mem addr (A.hdrlen + A.encrypt.ivLen) ++
        sealFragment (rc4 fun i => mem (addr + A.hdrlen + i))
          (load mem (addr + A.encrypt.ivLen + A.hdrlen)
            (size - A.hdrlen - A.encrypt.ivLen - A.encrypt.icvLen)) := by
  induction n generalizing pframe k mem with
  | zero => omega
  | succ n ih =>
    have hnext := le_rnd4 (pframe + fragLen)
    dsimp only
    rw [encryptFragments]
    cases k with
    | zero =>
      by_cases hn : n = 0
      · subst hn
        exact load_store_seal hicv hlast
      · have hmore : ¬0 + 1 = n + 1 := by omega
        rw [if_neg hn, if_neg hmore, fragAddr,
          load_congr fun i _ hi => encryptFragments_of_lt (by omega) _]
        exact load_store_seal hicv hfrag
    | succ k =>
      have hn : n ≠ 0 := by omega
      have hle := le_fragAddr fragLen (rnd4 (pframe + fragLen)) k
      simp only [Nat.add_right_cancel_iff]
      rw [if_neg hn, ← fragAddr_rnd4, ih (k := k) (by omega)]
      generalize fragAddr fragLen (rnd4 (pframe + fragLen)) k = addr at hle
      generalize hsize : (if k + 1 = n then A.lastTxcmdsz else fragLen) = size
      generalize hstored : store mem (pframe + A.encrypt.ivLen + A.hdrlen) _ = mem'
      have hsame : ∀ i, addr ≤ i → mem' i = mem i := by
        intro i hi
        rw [← hstored]
        exact store_seal_of_ge mem _ hicv hfrag (by omega)
      have hfront : load mem' addr (A.hdrlen + A.encrypt.ivLen) =
          load mem addr (A.hdrlen + A.encrypt.ivLen) := load_congr fun i hi _ => hsame i hi
      have hiv : (fun i => mem' (addr + A.hdrlen + i)) = fun i => mem (addr + A.hdrlen + i) := by
        funext i
        exact hsame _ (by omega)
      have hbody : load mem' (addr + A.encrypt.ivLen + A.hdrlen)
          (size - A.hdrlen - A.encrypt.ivLen - A.encrypt.icvLen) =
          load mem (addr + A.encrypt.ivLen + A.hdrlen)
            (size - A.hdrlen - A.encrypt.ivLen - A.encrypt.icvLen) :=
        load_congr fun i hi _ => hsame i (by omega)
      rw [hfront, hiv, hbody]

end Encrypt

/-- `xmitframe_swencrypt`, for WEP and TKIP. -/
def swEncrypt (sec : SecurityPriv) (A : PktAttrib) (fragLen pframe : ℕ) (mem : ℕ → BitVec 8) :
    ℕ → BitVec 8 :=
  if A.encrypt = .tkip then rtwTkipEncrypt sec A fragLen pframe mem
  else rtwWepEncrypt sec A fragLen pframe mem

/-- Fragment `k` of a frame to encrypt with WEP or TKIP has room for header, IV and ICV. -/
structure Fragment (A : PktAttrib) (fragLen k : ℕ) : Prop where
  cipher : A.encrypt = .wep40 ∨ A.encrypt = .wep104 ∨ A.encrypt = .tkip
  index : k < A.nrFrags
  frag : A.hdrlen + A.encrypt.ivLen + A.encrypt.icvLen ≤ fragLen
  last : A.hdrlen + A.encrypt.ivLen + A.encrypt.icvLen ≤ A.lastTxcmdsz

/-- The receiver sees a frame with the sender's attributes and has the sender's key for it. -/
structure SameKey (env : RecvEnv) (sec : SecurityPriv) (A : PktAttrib) (f : RecvFrame) : Prop where
  encrypt : f.encrypt = A.encrypt
  hdrlen : f.hdrlen = A.hdrlen
  ra : f.ra = A.ra
  ta : f.ta = A.ta
  software : f.bdecrypted = false
  wep : A.encrypt ≠ .tkip →
    env.sec.dot11DefKey f.keyIndex = sec.dot11DefKey sec.dot11PrivacyKeyIndex
  station : A.encrypt = .tkip → ∃ uncstKey, env.stainfo A.ta = some uncstKey ∧
    (A.ra.isMcast = false → uncstKey = A.uncstKey)
  group : A.encrypt = .tkip → A.ra.isMcast = true → env.sec.binstallGrpkey = true ∧
    env.sec.dot118021XGrpKey f.keyIndex = sec.dot118021XGrpKey sec.dot118021XGrpKeyid

section RoundTrip

variable {env : RecvEnv} {sec : SecurityPriv} {A : PktAttrib} {f : RecvFrame} {fragLen k : ℕ}

/-- The RC4 key of the sender. -/
def txKey (sec : SecurityPriv) (A : PktAttrib) (iv : ℕ → BitVec 8) : List (BitVec 8) :=
  if A.encrypt = .tkip then tkipTxKey sec A iv else wepTxKey sec iv

theorem swEncrypt_eq (h : Fragment A fragLen k) (pframe : ℕ) (mem : ℕ → BitVec 8) :
    swEncrypt sec A fragLen pframe mem =
      encryptFragments A fragLen (txKey sec A) A.nrFrags pframe mem := by
  have hkey : txKey sec A = if A.encrypt = .tkip then tkipTxKey sec A else wepTxKey sec := by
    funext iv
    unfold txKey
    split_ifs <;> rfl
  unfold swEncrypt rtwTkipEncrypt rtwWepEncrypt
  rw [hkey]
  rcases h.cipher with hc | hc | hc <;> simp [hc]

/-- The keys agree when the receiver sees the sender's IV. -/
theorem rxKey_eq (hc : A.encrypt = .wep40 ∨ A.encrypt = .wep104 ∨ A.encrypt = .tkip)
    (h : SameKey env sec A f) {iv : ℕ → BitVec 8} (hiv : ∀ i < A.encrypt.ivLen, f.iv i = iv i) :
    rxKey env f = some (txKey sec A iv) := by
  unfold rxKey txKey
  rw [h.encrypt]
  by_cases htkip : A.encrypt = .tkip
  · have hpn : getTkipPn f.iv = getTkipPn iv := by
      rw [htkip] at hiv
      unfold getTkipPn
      rw [hiv 0 (by decide), hiv 2 (by decide), hiv 4 (by decide), hiv 5 (by decide),
        hiv 6 (by decide), hiv 7 (by decide)]
    obtain ⟨uncstKey, hsta, huncst⟩ := h.station htkip
    rw [if_pos htkip, if_pos htkip, h.ta, hsta, h.ra, hpn]
    dsimp only
    cases hmc : A.ra.isMcast with
    | true =>
      obtain ⟨hinst, hgrp⟩ := h.group htkip hmc
      simp [hinst, hgrp, tkipTxKey, hmc]
    | false => simp [huncst hmc, tkipTxKey, hmc]
  · have hlen : A.encrypt.ivLen = 4 := by
      rcases hc with hc | hc | hc
      · rw [hc]; rfl
      · rw [hc]; rfl
      · exact absurd hc htkip
    rw [hlen] at hiv
    rw [if_neg htkip, if_neg htkip, h.wep htkip, wepTxKey, wepkey, wepkey, hiv 0 (by decide),
      hiv 1 (by decide), hiv 2 (by decide)]

/-- Decryption with the key of the sender opens what was sealed. -/
theorem decrypted_sealed {key front body : List (BitVec 8)} (hfront : front.length = f.payload)
    (hdata : f.data = front ++ sealFragment key body) :
    f.decrypted key = front ++ (body ++ icv body) := by
  rw [RecvFrame.decrypted, hdata, List.take_left' hfront, List.drop_left' hfront, sealFragment_eq,
    arcfourEncrypt, arcfourEncrypt, cipher_cipher]

/-- What was sealed with the receiver's key is accepted and opened. -/
theorem decryptor_sealed (hc : f.encrypt = .wep40 ∨ f.encrypt = .wep104 ∨ f.encrypt = .tkip)
    (hsw : f.bdecrypted = false) {key front body : List (BitVec 8)}
    (hkey : rxKey env f = some key) (hfront : front.length = f.payload)
    (hdata : f.data = front ++ sealFragment key body) :
    decryptor env f = .accepted (front ++ (body ++ icv body)) := by
  have hopen : f.decrypted key = front ++ (body ++ icv body) := decrypted_sealed hfront hdata
  have hroom : f.payload + 4 ≤ f.data.length := by
    rw [hdata, List.length_append, length_sealFragment]
    omega
  have hwep : f.encrypt = .wep40 ∨ f.encrypt = .wep104 →
      decryptor env f = .accepted (front ++ (body ++ icv body)) := by
    intro hwep
    have htkip : f.encrypt ≠ .tkip := by
      rcases hwep with h | h <;> rw [h] <;> decide
    rw [rxKey, if_neg htkip, Option.some_inj] at hkey
    rw [decryptor_wep hwep hsw, rtwWepDecrypt, if_neg (by omega), hkey, hopen]
  rcases hc with h | h | htkip
  · exact hwep (Or.inl h)
  · exact hwep (Or.inr h)
  · have hright : IcvRight f key := by
      refine ⟨hroom, body, ?_⟩
      rw [hopen, hdata, List.take_left' hfront]
    rw [decryptor_tkip htkip hsw]
    rcases rtwTkipDecrypt_eq env htkip with ⟨hnone, -⟩ | ⟨key', hkey', -, hacc, -⟩
    · rw [hkey] at hnone
      cases hnone
    · obtain rfl := Option.some.inj (hkey.symm.trans hkey')
      rw [hacc (by omega) ((crcEqual_iff hroom).mpr hright), hopen]

/-- What the receiver makes of fragment `k` of an encrypted frame. -/
theorem decryptor_swEncrypt (hfrag : Fragment A fragLen k) (hsame : SameKey env sec A f)
    {pframe : ℕ} {mem : ℕ → BitVec 8}
    (hdata : f.data = load (swEncrypt sec A fragLen pframe mem) (fragAddr fragLen pframe k)
      (fragSize A fragLen k)) :
    decryptor env f = .accepted
      (load mem (fragAddr fragLen pframe k) (A.hdrlen + A.encrypt.ivLen) ++
        (fragBody A fragLen pframe mem k ++ icv (fragBody A fragLen pframe mem k))) := by
  have hicv : A.encrypt.icvLen = 4 := by
    rcases hfrag.cipher with h | h | h <;> rw [h] <;> rfl
  have hroom := hfrag.frag
  have hlast := hfrag.last
  rw [hicv] at hroom hlast
  rw [swEncrypt_eq hfrag, fragSize, load_encryptFragments hicv hroom hlast hfrag.index] at hdata
  have hpayload : f.payload = A.hdrlen + A.encrypt.ivLen := by
    rw [RecvFrame.payload, hsame.encrypt, hsame.hdrlen]
  refine decryptor_sealed ?_ hsame.software (rxKey_eq hfrag.cipher hsame fun i hi => ?_)
    (by rw [length_load, hpayload]) hdata
  · rw [hsame.encrypt]
    exact hfrag.cipher
  · rw [RecvFrame.iv, hdata, hsame.hdrlen,
      List.getD_append _ _ _ _ (by rw [length_load]; omega), getD_load _ _ (by omega), Nat.add_assoc]

/-- Software decryption rejects a frame with a wrong ICV exactly if it is guarded, and what software
encryption made of a fragment is accepted, with the plaintext back in its place. -/
theorem decryptor_icv_iff (env : RecvEnv) (f : RecvFrame) :
    ((WrongIcv env f → decryptor env f = .rejected) ↔ (WrongIcv env f → Guarded env f)) ∧
      ∀ sec A fragLen pframe mem k, Fragment A fragLen k → SameKey env sec A f →
        f.data = load (swEncrypt sec A fragLen pframe mem) (fragAddr fragLen pframe k)
          (fragSize A fragLen k) →
        decryptor env f = .accepted
          (load mem (fragAddr fragLen pframe k) (A.hdrlen + A.encrypt.ivLen) ++
            (fragBody A fragLen pframe mem k ++ icv (fragBody A fragLen pframe mem k))) := by
  refine ⟨⟨fun h hw => (rejected_iff hw).mp (h hw), fun h hw => (rejected_iff hw).mpr (h hw)⟩, ?_⟩
  intro sec A fragLen pframe mem k hfrag hsame hdata
  exact decryptor_swEncrypt hfrag hsame hdata

end RoundTrip

/-- A station with a WEP key of zeros. -/
def zeroSec : SecurityPriv := ⟨0, fun _ => List.replicate 5 0, 0, fun _ _ => 0, false⟩

def zeroEnv : RecvEnv := ⟨zeroSec, fun _ => none, fun _ => .rejected⟩

/-- A frame of one fragment with one byte, to be sent with WEP. -/
def byteAttrib : PktAttrib := ⟨.wep40, 24, 1, 33, 0, 0, fun _ => 0⟩

/-- That frame as it is received. -/
def byteFrame : RecvFrame where
  data := load (swEncrypt zeroSec byteAttrib 100 0 fun i => BitVec.ofNat 8 i) 0 33
  hdrlen := 24
  encrypt := .wep40
  bdecrypted := false
  ra := 0
  ta := 0

/-- The byte comes back, with its ICV behind it. -/
theorem decryptor_byteFrame : decryptor zeroEnv byteFrame = .accepted
    (load (fun i => BitVec.ofNat 8 i) 0 28 ++ ([28] ++ icv [28])) :=
  (decryptor_icv_iff zeroEnv byteFrame).2 zeroSec byteAttrib 100 0 (fun i => BitVec.ofNat 8 i) 0
    ⟨Or.inl rfl, by decide, by decide, by decide⟩
    ⟨rfl, rfl, rfl, rfl, rfl, fun _ => rfl, nofun, nofun⟩ rfl

/-- A WEP frame without a body, whose ICV is one and not zero. -/
def wrongIcvFrame : RecvFrame where
  data := List.replicate 28 0 ++
    (arcfourEncrypt (arcfourInit (List.replicate 8 0)) [1, 0, 0, 0]).1
  hdrlen := 24
  encrypt := .wep40
  bdecrypted := false
  ra := 0
  ta := 0

theorem take_wrongIcvFrame :
    wrongIcvFrame.data.take wrongIcvFrame.payload = List.replicate 28 0 :=
  List.take_left' rfl

theorem decrypted_wrongIcvFrame :
    wrongIcvFrame.decrypted (List.replicate 8 0) = List.replicate 28 0 ++ [1, 0, 0, 0] := by
  have hdrop : wrongIcvFrame.data.drop wrongIcvFrame.payload =
      (arcfourEncrypt (arcfourInit (List.replicate 8 0)) [1, 0, 0, 0]).1 := List.drop_left' rfl
  rw [RecvFrame.decrypted, take_wrongIcvFrame, hdrop, arcfourEncrypt, arcfourEncrypt,
    cipher_cipher]

/-- WEP decryption accepts a frame with a wrong ICV. -/
theorem decryptor_accepts_wrong_icv :
    ¬∀ env f, WrongIcv env f → decryptor env f = .rejected := by
  intro h
  have hwrong : WrongIcv zeroEnv wrongIcvFrame := by
    refine ⟨Or.inl rfl, rfl, fun key hkey => ?_⟩
    obtain rfl : key = List.replicate 8 0 := (Option.some.inj hkey).symm
    rintro ⟨-, body, hbody⟩
    rw [decrypted_wrongIcvFrame, take_wrongIcvFrame] at hbody
    have hone : [1, 0, 0, 0] = body ++ icv body := List.append_cancel_left hbody
    have hbody : body = [] := by
      have := congrArg List.length hone
      simpa [icv] using this
    rw [hbody, List.nil_append, icv_nil] at hone
    cases hone
  have hrej := h zeroEnv wrongIcvFrame hwrong
  rw [decryptor_wep (Or.inl rfl) rfl, rtwWepDecrypt] at hrej
  split_ifs at hrej

end Rtl8821cu.SwCrypt
