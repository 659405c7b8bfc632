import DbSaci.Library.Utf8

set_option relaxedAutoImplicit false
set_option autoImplicit false

/-!
# Login

The client proves that it knows the password: it sends its half of a session key, and the password
under a key made of both halves. What the client sends is decrypted and cut at fixed places.

## Main definitions

* `Primitives` — hexadecimal texts, hashes and ciphers.
* `Outcome` — a value, an error, or a panic.
* `AuthState` and its functions — the state of a login.
* `authPhaseTwo` — what the server does with the second message of the client.

## Main results

* `safe_restOfLogin_iff` — the login panics exactly if the half of the client is too short, and its
  proof is hexadecimal.
* `acceptsOnly_iff` — a proof that is accepted is the password, unless more bytes follow it.
-/

namespace DbSaci.Server.Auth

/-! ### Values, errors and panics -/

/-- What stops a function: a panic, or an error with its text. -/
inductive Stop
  | panicked
  | failed (message : String)
  deriving DecidableEq, Repr

/-- A value, an error, or a panic. -/
abbrev Outcome (α : Type) : Type := Except Stop α

/-- There is no panic. -/
def Safe {α : Type} (x : Outcome α) : Prop := x ≠ .error .panicked

lemma Safe.ok {α : Type} (a : α) : Safe (.ok a : Outcome α) := fun h => by cases h

lemma Safe.failed {α : Type} (message : String) : Safe (.error (.failed message) : Outcome α) :=
  fun h => by cases h

lemma Safe.bind {α β : Type} {x : Outcome α} {f : α → Outcome β} (hx : Safe x)
    (hf : ∀ a, x = .ok a → Safe (f a)) : Safe (x >>= f) := by
  cases x with
  | ok a => exact hf a rfl
  | error stop =>
    cases stop with
    | panicked => exact absurd rfl hx
    | failed message => exact Safe.failed message

lemma exists_of_bind_ok {α β : Type} {x : Outcome α} {f : α → Outcome β} {b : β}
    (h : (x >>= f) = .ok b) : ∃ a, x = .ok a ∧ f a = .ok b := by
  cases x with
  | ok a => exact ⟨a, rfl, h⟩
  | error stop => cases h

/-- `b[lo..hi]`. -/
def slice (b : List UInt8) (lo hi : ℕ) : Outcome (List UInt8) :=
  if lo ≤ hi ∧ hi ≤ b.length then .ok ((b.drop lo).take (hi - lo)) else .error .panicked

/-- `expect` of an option. -/
def expect {α : Type} : Option α → Outcome α
  | some a => .ok a
  | none => .error .panicked

lemma slice_ok {b : List UInt8} {lo hi : ℕ} (hle : lo ≤ hi) (hlen : hi ≤ b.length) :
    slice b lo hi = .ok ((b.drop lo).take (hi - lo)) := if_pos ⟨hle, hlen⟩

lemma slice_panics {b : List UInt8} {lo hi : ℕ} (hlen : b.length < hi) :
    slice b lo hi = .error .panicked := if_neg fun h => Nat.not_lt.2 h.2 hlen

/-! ### Primitives -/

/-- So many bytes. -/
abbrev Bytes (n : ℕ) : Type := {b : List UInt8 // b.length = n}

/-- Hexadecimal texts, hashes, and ciphers in CBC mode with an initial vector of zeros, on texts of
whole blocks. -/
structure Primitives where
  hexDecode : List Char → Except String (List UInt8)
  hexUpper : List UInt8 → List Char
  sha1 : List UInt8 → Bytes 20
  sha512 : List UInt8 → Bytes 64
  md5 : List UInt8 → Bytes 16
  pbkdf2Sha512 : List UInt8 → List UInt8 → ℕ → (len : ℕ) → Bytes len
  encrypt192 : Bytes 24 → List UInt8 → List UInt8
  encrypt256 : Bytes 32 → List UInt8 → List UInt8
  decrypt192 : Bytes 24 → List UInt8 → List UInt8
  decrypt256 : Bytes 32 → List UInt8 → List UInt8
  length_decrypt192 : ∀ key text, text.length % 16 = 0 → (decrypt192 key text).length = text.length
  length_decrypt256 : ∀ key text, text.length % 16 = 0 → (decrypt256 key text).length = text.length

/-- A key of a cipher: another number of bytes is a panic. -/
def keyOf (n : ℕ) (key : List UInt8) : Outcome (Bytes n) :=
  if h : key.length = n then .ok ⟨key, h⟩ else .error .panicked

/-- A text of whole blocks is encrypted. -/
def encryptNoPadding {n : ℕ} (encrypt : Bytes n → List UInt8 → List UInt8)
    (key text : List UInt8) : Outcome (List UInt8) := do
  let key ← keyOf n key
  if text.length % 16 = 0 then .ok (encrypt key text) else .error .panicked

/-- A text of whole blocks is decrypted. -/
def decryptNoPadding {n : ℕ} (decrypt : Bytes n → List UInt8 → List UInt8) (message : String)
    (key text : List UInt8) : Outcome (List UInt8) := do
  let key ← keyOf n key
  if text.length % 16 = 0 then .ok (decrypt key text) else .error (.failed message)

/-- The text without its padding: as many bytes as the last one says, each equal to it. -/
def unpadPkcs7 (text : List UInt8) : Option (List UInt8) :=
  match text.getLast? with
  | none => none
  | some n =>
    if n = 0 ∨ 16 < n.toNat then none
    else if (text.drop (text.length - n.toNat)).all (· == n) then
      some (text.take (text.length - n.toNat))
    else none

/-- A text of whole blocks is decrypted, and its padding is removed. -/
def decryptPkcs7 {n : ℕ} (decrypt : Bytes n → List UInt8 → List UInt8) (message : String)
    (key text : List UInt8) : Outcome (List UInt8) := do
  let key ← keyOf n key
  if text.length % 16 = 0 then
    match unpadPkcs7 (decrypt key text) with
    | some plaintext => .ok plaintext
    | none => .error (.failed message)
  else .error (.failed message)

variable (P : Primitives)

/-- `aes192_encrypt_no_padding`. -/
def aes192EncryptNoPadding : List UInt8 → List UInt8 → Outcome (List UInt8) :=
  encryptNoPadding P.encrypt192

/-- `aes256_encrypt_no_padding`. -/
def aes256EncryptNoPadding : List UInt8 → List UInt8 → Outcome (List UInt8) :=
  encryptNoPadding P.encrypt256

/-- `aes192_decrypt_no_padding`. -/
def aes192DecryptNoPadding : List UInt8 → List UInt8 → Outcome (List UInt8) :=
  decryptNoPadding P.decrypt192 "invalid AES-192 session-key ciphertext"

/-- `aes256_decrypt_no_padding`. -/
def aes256DecryptNoPadding : List UInt8 → List UInt8 → Outcome (List UInt8) :=
  decryptNoPadding P.decrypt256 "invalid AES-256 session-key ciphertext"

/-- `aes192_decrypt_pkcs7`. -/
def aes192DecryptPkcs7 : List UInt8 → List UInt8 → Outcome (List UInt8) :=
  decryptPkcs7 P.decrypt192 "invalid AES-192 password proof"

/-- `aes256_decrypt_pkcs7`. -/
def aes256DecryptPkcs7 : List UInt8 → List UInt8 → Outcome (List UInt8) :=
  decryptPkcs7 P.decrypt256 "invalid AES-256 password proof"

/-- `hex::decode`. -/
def decodeHex (text : List Char) : Outcome (List UInt8) :=
  match P.hexDecode text with
  | .ok bytes => .ok bytes
  | .error message => .error (.failed message)

/-! ### The state of a login -/

/-- The two ways to prove a password. -/
inductive Verifier
  | v11g
  | v12c
  deriving DecidableEq, Repr

/-- The state of a login. -/
structure AuthState where
  verifier : Verifier
  password : List UInt8
  vfrData : Bytes 16
  serverA : List UInt8
  clientB : Option (List UInt8)
  cskSalt : Option (Bytes 16)
  vgenCount : ℕ
  sderCount : ℕ

/-- What the server makes up at random, by the way to prove the password. -/
inductive Challenge
  | v11g (vfr : Bytes 16) (serverA : Bytes 48)
  | v12c (vfr : Bytes 16) (serverA : Bytes 32) (cskSalt : Bytes 16)

/-- `AuthState::new_11g` and `AuthState::new_12c`. -/
def AuthState.new (password : List UInt8) : Challenge → AuthState
  | .v11g vfr serverA => ⟨.v11g, password, vfr, serverA.1, none, none, 0, 0⟩
  | .v12c vfr serverA cskSalt => ⟨.v12c, password, vfr, serverA.1, none, some cskSalt, 4096, 3⟩

/-- `password_hash_11g`. -/
def passwordHash11g (password vfr : List UInt8) : List UInt8 :=
  (P.sha1 (password ++ vfr)).1 ++ List.replicate 4 0

/-- `password_key_12c`. -/
def passwordKey12c (password vfr : List UInt8) (vgen : ℕ) : List UInt8 :=
  (P.pbkdf2Sha512 password (vfr ++ utf8Encode "AUTH_PBKDF2_SPEEDY_KEY".toList) vgen 64).1

/-- `password_hash_12c`. -/
def passwordHash12c (password vfr : List UInt8) (vgen : ℕ) : List UInt8 :=
  (P.sha512 (passwordKey12c P password vfr vgen ++ vfr)).1.take 32

variable (s : AuthState)

/-- The half of the client, decrypted with a hash of the password. -/
def decryptSesskey (ciphertext : List UInt8) : Outcome (List UInt8) :=
  match s.verifier with
  | .v11g => aes192DecryptNoPadding P (passwordHash11g P s.password s.vfrData.1) ciphertext
  | .v12c =>
    aes256DecryptNoPadding P (passwordHash12c P s.password s.vfrData.1 s.vgenCount) ciphertext

/-- `set_client_sesskey`. -/
def setClientSesskey (clientSesskeyHex : List Char) : Outcome AuthState := do
  let ciphertext ← decodeHex P clientSesskeyHex
  let plaintext ← decryptSesskey P s ciphertext
  .ok { s with clientB := some plaintext }

/-- `combo_key`: the key made of both halves. -/
def comboKey : Outcome (List UInt8) := do
  let clientB ← expect s.clientB
  match s.verifier with
  | .v11g => do
    let a ← slice s.serverA 16 40
    let b ← slice clientB 16 40
    let xored := a.zipWith (· ^^^ ·) b
    let low ← slice xored 0 16
    let high ← slice xored 16 xored.length
    let tail ← slice (P.md5 high).1 0 8
    .ok ((P.md5 low).1 ++ tail)
  | .v12c => do
    let b ← slice clientB 0 32
    let a ← slice s.serverA 0 32
    let salt ← expect s.cskSalt
    .ok (P.pbkdf2Sha512 (utf8Encode (P.hexUpper b ++ P.hexUpper a)) salt.1 s.sderCount 32).1

/-- What `verify_password` decrypts. -/
def decryptProof (authPasswordHex : List Char) : Outcome (List UInt8) := do
  let ciphertext ← decodeHex P authPasswordHex
  let key ← comboKey P s
  match s.verifier with
  | .v11g => aes192DecryptPkcs7 P key ciphertext
  | .v12c => aes256DecryptPkcs7 P key ciphertext

/-- `verify_password`. -/
def verifyPassword (authPasswordHex : List Char) : Outcome Unit := do
  let plaintext ← decryptProof P s authPasswordHex
  if plaintext.length < 16 + s.password.length then .error (.failed "password plaintext too short")
  else do
    let proof ← slice plaintext 16 (16 + s.password.length)
    if proof ≠ s.password then .error (.failed "password mismatch") else .ok ()

/-- `verify_speedy_key`. -/
def verifySpeedyKey (speedyKeyHex : List Char) : Outcome Unit :=
  match s.verifier with
  | .v11g => .ok ()
  | .v12c => do
    let ciphertext ← decodeHex P speedyKeyHex
    let key ← comboKey P s
    let plaintext ← aes256DecryptNoPadding P key ciphertext
    let passwordKey := passwordKey12c P s.password s.vfrData.1 s.vgenCount
    if plaintext.length < 16 + passwordKey.length then
      .error (.failed "speedy key plaintext too short")
    else do
      let proof ← slice plaintext 16 (16 + passwordKey.length)
      if proof ≠ passwordKey then .error (.failed "speedy key mismatch") else .ok ()

/-- `svr_response`. -/
def svrResponse : Outcome (List UInt8) := do
  let key ← comboKey P s
  let marker := List.replicate 16 0 ++ utf8Encode "SERVER_TO_CLIENT".toList ++
    List.replicate 16 0x10
  match s.verifier with
  | .v11g => aes192EncryptNoPadding P key marker
  | .v12c => aes256EncryptNoPadding P key marker

/-- The speedy key is verified if there is one. -/
def verifySpeedyKey? : Option (List Char) → Outcome Unit
  | none => .ok ()
  | some speedyKey => verifySpeedyKey P s speedyKey

/-- The login behind the half of the client: the password, the speedy key if there is one, and the
answer of the server. -/
def restOfLogin (authPassword : List Char) (speedyKey : Option (List Char)) :
    Outcome (List Char) := do
  verifyPassword P s authPassword
  verifySpeedyKey? P s speedyKey
  let response ← svrResponse P s
  .ok (P.hexUpper response)

/-- The last value of a key. -/
def lastValue (pairs : List (String × List UInt8)) (key : String) : Option (List Char) :=
  (pairs.reverse.lookup key).map utf8Lossy

/-- The second message of the client. -/
def authPhaseTwo (pairs : List (String × List UInt8)) : Outcome (List Char) :=
  match lastValue pairs "AUTH_SESSKEY", lastValue pairs "AUTH_PASSWORD" with
  | none, _ => .error (.failed "missing AUTH_SESSKEY")
  | some _, none => .error (.failed "missing AUTH_PASSWORD")
  | some clientSesskey, some authPassword => do
    let s ← setClientSesskey P s clientSesskey
    restOfLogin P s authPassword (lastValue pairs "AUTH_PBKDF2_SPEEDY_KEY")

/-! ### Keys and ciphers -/

section Ciphers

variable {P} {n : ℕ} {key text : List UInt8} {message : String}

lemma keyOf_ok (h : key.length = n) : keyOf n key = .ok ⟨key, h⟩ := dif_pos h

lemma decryptNoPadding_safe {decrypt : Bytes n → List UInt8 → List UInt8} (h : key.length = n) :
    Safe (decryptNoPadding decrypt message key text) := by
  rw [decryptNoPadding, keyOf_ok h]
  change Safe (if _ then _ else _)
  split_ifs
  · exact Safe.ok _
  · exact Safe.failed message

lemma decryptPkcs7_safe {decrypt : Bytes n → List UInt8 → List UInt8} (h : key.length = n) :
    Safe (decryptPkcs7 decrypt message key text) := by
  rw [decryptPkcs7, keyOf_ok h]
  change Safe (if _ then _ else _)
  split_ifs
  · cases unpadPkcs7 (decrypt ⟨key, h⟩ text) with
    | some plaintext => exact Safe.ok plaintext
    | none => exact Safe.failed message
  · exact Safe.failed message

lemma encryptNoPadding_safe {encrypt : Bytes n → List UInt8 → List UInt8} (h : key.length = n)
    (htext : text.length % 16 = 0) : Safe (encryptNoPadding encrypt key text) := by
  rw [encryptNoPadding, keyOf_ok h]
  change Safe (if _ then _ else _)
  rw [if_pos htext]
  exact Safe.ok _

/-- What is decrypted without padding is as long as it was. -/
lemma decryptNoPadding_ok {decrypt : Bytes n → List UInt8 → List UInt8}
    (hlength : ∀ key text, text.length % 16 = 0 → (decrypt key text).length = text.length)
    {plaintext : List UInt8} (h : decryptNoPadding decrypt message key text = .ok plaintext) :
    plaintext.length = text.length := by
  unfold decryptNoPadding at h
  by_cases hkey : key.length = n
  · rw [keyOf_ok hkey] at h
    change (if _ then _ else _) = _ at h
    split_ifs at h with htext
    obtain rfl := Except.ok.inj h
    exact hlength _ _ htext
  · rw [keyOf, dif_neg hkey] at h
    cases h

lemma decodeHex_safe (hex : List Char) : Safe (decodeHex P hex) := by
  unfold decodeHex
  cases P.hexDecode hex with
  | ok bytes => exact Safe.ok bytes
  | error message => exact Safe.failed message

end Ciphers

/-! ### The key made of both halves -/

/-- How many bytes of the half of the client are used. -/
def Challenge.neededBytes : Challenge → ℕ
  | .v11g _ _ => 40
  | .v12c _ _ _ => 32

/-- How long the key made of both halves is. -/
def Verifier.keyLength : Verifier → ℕ
  | .v11g => 24
  | .v12c => 32

section Combo

variable {P} {password b : List UInt8} {ch : Challenge}

/-- The half of the client is decrypted, and is as long as what has been sent. -/
lemma setClientSesskey_ok {hex : List Char} {s : AuthState}
    (h : setClientSesskey P (.new password ch) hex = .ok s) :
    ∃ ciphertext b, P.hexDecode hex = .ok ciphertext ∧ b.length = ciphertext.length ∧
      s = { AuthState.new password ch with clientB := some b } := by
  obtain ⟨ciphertext, hhex, h⟩ := exists_of_bind_ok h
  obtain ⟨b, hb, h⟩ := exists_of_bind_ok h
  refine ⟨ciphertext, b, ?_, ?_, (Except.ok.inj h).symm⟩
  · unfold decodeHex at hhex
    cases hdecode : P.hexDecode hex with
    | ok bytes =>
      rw [hdecode] at hhex
      obtain rfl := Except.ok.inj hhex
      rfl
    | error message =>
      rw [hdecode] at hhex
      cases hhex
  · cases ch with
    | v11g vfr serverA => exact decryptNoPadding_ok P.length_decrypt192 hb
    | v12c vfr serverA cskSalt => exact decryptNoPadding_ok P.length_decrypt256 hb

/-- **The key is made** if the half of the client is long enough. -/
lemma comboKey_of_le (h : ch.neededBytes ≤ b.length) :
    ∃ key, comboKey P { AuthState.new password ch with clientB := some b } = .ok key ∧
      key.length = (AuthState.new password ch).verifier.keyLength := by
  cases ch with
  | v11g vfr serverA =>
    have ha : 40 ≤ serverA.1.length := by
      rw [serverA.2]
      decide
    have hb : 40 ≤ b.length := h
    have hxored : (((serverA.1.drop 16).take (40 - 16)).zipWith (· ^^^ ·)
        ((b.drop 16).take (40 - 16))).length = 24 := by
      rw [List.length_zipWith, List.length_take, List.length_take, List.length_drop,
        List.length_drop]
      omega
    change ∃ key, (slice serverA.1 16 40 >>= fun a => slice b 16 40 >>= fun b => _) = .ok key ∧ _
    rw [slice_ok (by decide) ha, slice_ok (by decide) hb]
    change ∃ key, (slice _ 0 16 >>= fun low => slice _ 16 _ >>= fun high => _) = .ok key ∧ _
    rw [hxored, slice_ok (by decide) (by omega), slice_ok (by decide) (by omega)]
    change ∃ key, (slice (P.md5 _).1 0 8 >>= fun tail => _) = .ok key ∧ _
    rw [slice_ok (by decide) (by rw [(P.md5 _).2]; decide)]
    refine ⟨_, rfl, ?_⟩
    rw [List.length_append, (P.md5 _).2, List.length_take, List.length_drop, (P.md5 _).2]
    rfl
  | v12c vfr serverA cskSalt =>
    have ha : 32 ≤ serverA.1.length := serverA.2.ge
    have hb : 32 ≤ b.length := h
    change ∃ key, (slice b 0 32 >>= fun b => slice serverA.1 0 32 >>= fun a => _) = .ok key ∧ _
    rw [slice_ok (by decide) hb, slice_ok (by decide) ha]
    exact ⟨_, rfl, (P.pbkdf2Sha512 _ _ _ 32).2⟩

/-- **It is a panic** if the half of the client is too short. -/
lemma comboKey_of_lt (h : b.length < ch.neededBytes) :
    comboKey P { AuthState.new password ch with clientB := some b } = .error .panicked := by
  cases ch with
  | v11g vfr serverA =>
    have ha : 40 ≤ serverA.1.length := by rw [serverA.2]; decide
    have hb : b.length < 40 := h
    change (slice serverA.1 16 40 >>= fun a => slice b 16 40 >>= fun b => _) = _
    rw [slice_ok (by decide) ha, slice_panics hb]
    rfl
  | v12c vfr serverA cskSalt =>
    have hb : b.length < 32 := h
    change (slice b 0 32 >>= fun b => _) = _
    rw [slice_panics hb]
    rfl

end Combo

/-! ### The rest of the login -/

/-- The length of what is decrypted is checked before what stands behind the salt is compared. -/
lemma comparison_safe (plaintext secret : List UInt8) (short mismatch : String) :
    Safe (if plaintext.length < 16 + secret.length then .error (.failed short)
      else slice plaintext 16 (16 + secret.length) >>= fun proof =>
        if proof ≠ secret then .error (.failed mismatch) else .ok ()) := by
  split_ifs with hshort
  · exact Safe.failed _
  · rw [slice_ok (Nat.le_add_right _ _) (Nat.le_of_not_lt hshort)]
    change Safe (if _ then _ else _)
    split_ifs
    · exact Safe.failed _
    · exact Safe.ok ()

section Rest

variable {P s} {key : List UInt8} (hkey : comboKey P s = .ok key)
  (hlen : key.length = s.verifier.keyLength)

include hkey hlen

lemma decryptProof_safe (hex : List Char) : Safe (decryptProof P s hex) := by
  refine Safe.bind (decodeHex_safe hex) fun ciphertext _ => ?_
  rw [hkey]
  change Safe (match s.verifier with
    | .v11g => aes192DecryptPkcs7 P key ciphertext
    | .v12c => aes256DecryptPkcs7 P key ciphertext)
  cases hv : s.verifier with
  | v11g => exact decryptPkcs7_safe (hlen.trans (by rw [hv]; rfl))
  | v12c => exact decryptPkcs7_safe (hlen.trans (by rw [hv]; rfl))

lemma verifyPassword_safe (hex : List Char) : Safe (verifyPassword P s hex) := by
  refine Safe.bind (decryptProof_safe hkey hlen hex) fun plaintext _ => ?_
  exact comparison_safe plaintext s.password _ _

lemma verifySpeedyKey_safe (hex : List Char) : Safe (verifySpeedyKey P s hex) := by
  unfold verifySpeedyKey
  cases hv : s.verifier with
  | v11g => exact Safe.ok ()
  | v12c =>
    refine Safe.bind (decodeHex_safe hex) fun ciphertext _ => ?_
    rw [hkey]
    change Safe (aes256DecryptNoPadding P key ciphertext >>= fun plaintext => _)
    refine Safe.bind (decryptNoPadding_safe (hlen.trans (by rw [hv]; rfl))) fun plaintext _ => ?_
    exact comparison_safe plaintext _ _ _

lemma svrResponse_safe : Safe (svrResponse P s) := by
  unfold svrResponse
  rw [hkey]
  change Safe (match s.verifier with
    | .v11g => aes192EncryptNoPadding P key _
    | .v12c => aes256EncryptNoPadding P key _)
  cases hv : s.verifier with
  | v11g => exact encryptNoPadding_safe (hlen.trans (by rw [hv]; rfl)) (by decide +kernel)
  | v12c => exact encryptNoPadding_safe (hlen.trans (by rw [hv]; rfl)) (by decide +kernel)

/-- **With a key nothing panics.** -/
theorem restOfLogin_safe (authPassword : List Char) (speedyKey : Option (List Char)) :
    Safe (restOfLogin P s authPassword speedyKey) := by
  refine Safe.bind (verifyPassword_safe hkey hlen authPassword) fun _ _ => ?_
  refine Safe.bind ?_ fun _ _ => Safe.bind (svrResponse_safe hkey hlen) fun _ _ => Safe.ok _
  cases speedyKey with
  | none => exact Safe.ok ()
  | some speedyKey => exact verifySpeedyKey_safe hkey hlen speedyKey

end Rest

/-- **The rest of the login panics** exactly if the half of the client, which has been accepted, is
too short, and the proof of the password is hexadecimal. -/
theorem safe_restOfLogin_iff (password : List UInt8) (ch : Challenge) (clientSesskey : List Char)
    (s : AuthState) (authPassword : List Char) (speedyKey : Option (List Char))
    (h : setClientSesskey P (.new password ch) clientSesskey = .ok s) :
    Safe (restOfLogin P s authPassword speedyKey) ↔
      (∃ message, P.hexDecode authPassword = .error message) ∨
      ∃ ciphertext, P.hexDecode clientSesskey = .ok ciphertext ∧
        ch.neededBytes ≤ ciphertext.length := by
  obtain ⟨ciphertext, b, hhex, hb, rfl⟩ := setClientSesskey_ok h
  constructor
  · intro hsafe
    by_contra hnot
    rw [not_or, not_exists, not_exists] at hnot
    have hshort : b.length < ch.neededBytes := by
      rw [hb]
      exact Nat.lt_of_not_le fun hle => hnot.2 ciphertext ⟨hhex, hle⟩
    have hpassword : ∃ bytes, P.hexDecode authPassword = .ok bytes := by
      cases hdecode : P.hexDecode authPassword with
      | ok bytes => exact ⟨bytes, rfl⟩
      | error message => exact absurd hdecode (hnot.1 message)
    obtain ⟨bytes, hbytes⟩ := hpassword
    refine hsafe ?_
    unfold restOfLogin verifyPassword decryptProof decodeHex
    rw [hbytes, comboKey_of_lt hshort]
    rfl
  · rintro (⟨message, hmessage⟩ | ⟨ciphertext', hhex', hle⟩)
    · unfold restOfLogin verifyPassword decryptProof decodeHex
      rw [hmessage]
      exact Safe.failed message
    · rw [hhex] at hhex'
      obtain rfl := Except.ok.inj hhex'
      obtain ⟨key, hkey, hlen⟩ := comboKey_of_le (hb ▸ hle)
      exact restOfLogin_safe hkey hlen authPassword speedyKey

/-- The hashes of the password are keys. -/
lemma setClientSesskey_safe (hex : List Char) : Safe (setClientSesskey P s hex) := by
  refine Safe.bind (decodeHex_safe hex) fun ciphertext _ => Safe.bind ?_ fun _ _ => Safe.ok _
  unfold decryptSesskey
  cases s.verifier with
  | v11g =>
    refine decryptNoPadding_safe ?_
    rw [passwordHash11g, List.length_append, (P.sha1 _).2, List.length_replicate]
  | v12c =>
    refine decryptNoPadding_safe ?_
    rw [passwordHash12c, List.length_take, (P.sha512 _).2]
    rfl

/-- **The second message of a client** is answered, or refused with an error, if its half of the
key is long enough whenever it is hexadecimal. -/
theorem authPhaseTwo_safe (password : List UInt8) (ch : Challenge)
    (pairs : List (String × List UInt8))
    (h : ∀ text ciphertext, lastValue pairs "AUTH_SESSKEY" = some text →
      P.hexDecode text = .ok ciphertext → ch.neededBytes ≤ ciphertext.length) :
    Safe (authPhaseTwo P (.new password ch) pairs) := by
  unfold authPhaseTwo
  cases hsesskey : lastValue pairs "AUTH_SESSKEY" with
  | none => exact Safe.failed _
  | some text =>
    cases lastValue pairs "AUTH_PASSWORD" with
    | none => exact Safe.failed _
    | some authPassword =>
      refine Safe.bind (setClientSesskey_safe P _ text) fun s hs => ?_
      obtain ⟨ciphertext, b, hhex, hb, rfl⟩ := setClientSesskey_ok hs
      have hlong : ch.neededBytes ≤ b.length := hb ▸ h text ciphertext hsesskey hhex
      obtain ⟨key, hkey, hlen⟩ : ∃ key,
          comboKey P { AuthState.new password ch with clientB := some b } = .ok key ∧
            key.length = (AuthState.new password ch).verifier.keyLength := comboKey_of_le hlong
      exact restOfLogin_safe hkey hlen authPassword _

/-! ### What is accepted -/

/-- **The proof is the password**: what is decrypted is salt and the password, and no more. -/
def ProvesPassword (authPasswordHex : List Char) : Prop :=
  ∃ plaintext, decryptProof P s authPasswordHex = .ok plaintext ∧ 16 ≤ plaintext.length ∧
    plaintext.drop 16 = s.password

/-- More bytes follow the password. -/
def GoesOn (authPasswordHex : List Char) : Prop :=
  ∃ salt extra, decryptProof P s authPasswordHex = .ok (salt ++ s.password ++ extra) ∧
    salt.length = 16 ∧ extra ≠ []

/-- What is accepted starts with salt and the password. -/
lemma verifyPassword_ok_iff (authPasswordHex : List Char) :
    verifyPassword P s authPasswordHex = .ok () ↔
      ∃ salt extra, decryptProof P s authPasswordHex = .ok (salt ++ s.password ++ extra) ∧
        salt.length = 16 := by
  constructor
  · intro h
    obtain ⟨plaintext, hplain, h⟩ := exists_of_bind_ok h
    split_ifs at h with hshort
    obtain ⟨proof, hproof, h⟩ := exists_of_bind_ok h
    rw [slice_ok (Nat.le_add_right _ _) (Nat.le_of_not_lt hshort), Nat.add_sub_cancel_left] at hproof
    obtain rfl := Except.ok.inj hproof
    split_ifs at h with hne
    have hsame : (plaintext.drop 16).take s.password.length = s.password := not_not.1 hne
    refine ⟨plaintext.take 16, (plaintext.drop 16).drop s.password.length, ?_, ?_⟩
    · rw [hplain, List.append_assoc]
      nth_rewrite 1 [← hsame]
      rw [List.take_append_drop, List.take_append_drop]
    · rw [List.length_take]
      omega
  · rintro ⟨salt, extra, hplain, hsalt⟩
    have hlong : ¬ (salt ++ s.password ++ extra).length < 16 + s.password.length := by
      rw [List.length_append, List.length_append]
      omega
    have hsame : ((salt ++ s.password ++ extra).drop 16).take s.password.length = s.password := by
      rw [List.append_assoc, ← hsalt, List.drop_left, List.take_left]
    unfold verifyPassword
    rw [hplain]
    change (if _ then _ else _) = _
    rw [if_neg hlong, slice_ok (Nat.le_add_right _ _) (Nat.le_of_not_lt hlong),
      Nat.add_sub_cancel_left, hsame]
    exact if_neg fun hne => hne rfl

/-- **A proof that is accepted is the password** if and only if no more bytes follow the
password. -/
theorem acceptsOnly_iff (authPasswordHex : List Char) :
    (verifyPassword P s authPasswordHex = .ok () → ProvesPassword P s authPasswordHex) ↔
      ¬ GoesOn P s authPasswordHex := by
  rw [verifyPassword_ok_iff]
  constructor
  · rintro hproves ⟨salt, extra, hplain, hsalt, hextra⟩
    obtain ⟨plaintext, hplain', -, hdrop⟩ := hproves ⟨salt, extra, hplain, hsalt⟩
    rw [hplain] at hplain'
    obtain rfl := Except.ok.inj hplain'
    rw [List.append_assoc, ← hsalt, List.drop_left] at hdrop
    exact hextra (List.append_right_eq_self.1 hdrop)
  · rintro hnot ⟨salt, extra, hplain, hsalt⟩
    have hextra : extra = [] := by
      by_contra hne
      exact hnot ⟨salt, extra, hplain, hsalt, hne⟩
    subst hextra
    refine ⟨_, hplain, ?_, ?_⟩
    · rw [List.length_append, List.length_append]
      omega
    · rw [List.append_nil, ← hsalt, List.drop_left]

/-! ### Logins in the clear -/

/-- The value of a hexadecimal digit. -/
def hexDigit (c : Char) : Option ℕ :=
  if c.isDigit then some (c.toNat - 48)
  else if 'a' ≤ c ∧ c ≤ 'f' then some (c.toNat - 87)
  else if 'A' ≤ c ∧ c ≤ 'F' then some (c.toNat - 55)
  else none

/-- The bytes of a text of pairs of digits. -/
def hexPairs : List Char → Except String (List UInt8)
  | [] => .ok []
  | [_] => .error "Odd number of digits"
  | c :: d :: text =>
    match hexDigit c, hexDigit d with
    | some high, some low => (hexPairs text).map (UInt8.ofNat (16 * high + low) :: ·)
    | _, _ => .error "Invalid character"

/-- Zeros for hashes, and ciphers that change nothing. -/
def clearPrimitives : Primitives where
  hexDecode := hexPairs
  hexUpper b := b.flatMap fun b => (Nat.toDigits 16 (256 + b.toNat)).drop 1 |>.map Char.toUpper
  sha1 _ := ⟨List.replicate 20 0, rfl⟩
  sha512 _ := ⟨List.replicate 64 0, rfl⟩
  md5 _ := ⟨List.replicate 16 0, rfl⟩
  pbkdf2Sha512 _ _ _ len := ⟨List.replicate len 0, List.length_replicate⟩
  encrypt192 _ text := text
  encrypt256 _ text := text
  decrypt192 _ text := text
  decrypt256 _ text := text
  length_decrypt192 _ _ _ := rfl
  length_decrypt256 _ _ _ := rfl

/-- What the server makes up is zero. -/
def zeroChallenge : Challenge :=
  .v12c ⟨List.replicate 16 0, rfl⟩ ⟨List.replicate 32 0, rfl⟩ ⟨List.replicate 16 0, rfl⟩

/-- A login with a half of the client of 32 bytes, which has been sent as so many zeros. -/
theorem fullSesskey_safe : Safe (restOfLogin clearPrimitives
    { AuthState.new [] zeroChallenge with clientB := some (List.replicate 32 0) } [] none) :=
  (safe_restOfLogin_iff clearPrimitives [] zeroChallenge (List.replicate 64 '0') _ [] none rfl).2
    (.inr ⟨List.replicate 32 0, rfl, by decide⟩)

/-- An empty half of the client is accepted, and the rest of the login panics. -/
theorem emptySesskey_panics : ∃ s,
    setClientSesskey clearPrimitives (.new [] zeroChallenge) [] = .ok s ∧
      ¬ Safe (restOfLogin clearPrimitives s [] none) :=
  ⟨_, rfl, fun hsafe => hsafe rfl⟩

/-- A longer password is accepted: the proof goes on behind the one that is stored. -/
theorem longerPassword_accepted : ∃ s authPasswordHex,
    verifyPassword clearPrimitives s authPasswordHex = .ok () ∧
      ¬ ProvesPassword clearPrimitives s authPasswordHex := by
  -- sixteen zeros, the bytes of `password`, and eight bytes of padding
  refine ⟨{ AuthState.new (utf8Encode "pass".toList) zeroChallenge with
    clientB := some (List.replicate 32 0) }, List.replicate 32 '0' ++
    "70617373776f72640808080808080808".toList, by decide +kernel, ?_⟩
  rintro ⟨plaintext, hplain, -, hdrop⟩
  have hok : decryptProof clearPrimitives { AuthState.new (utf8Encode "pass".toList)
      zeroChallenge with clientB := some (List.replicate 32 0) } (List.replicate 32 '0' ++
      "70617373776f72640808080808080808".toList) =
        .ok (List.replicate 16 0 ++ utf8Encode "password".toList) := by decide +kernel
  rw [hok] at hplain
  obtain rfl := Except.ok.inj hplain
  revert hdrop
  decide +kernel

end DbSaci.Server.Auth
