import DbSaci.Server.Handshake

set_option relaxedAutoImplicit false
set_option autoImplicit false

/-!
# A client that knows the password

What the server offers in its first answer is enough for a client with the right password: it finds
the half of the server, its proof is accepted, and it can tell that the server knows the password as
well.

## Main definitions

* `Lawful` — ciphers and hexadecimal texts can be undone.
* `Offer` — what the first answer of the server has for the client.
* `Client` — a client, with `Client.read` and `Client.answer`; `Confirms` — it is sure of the server.

## Main results

* `unpadPkcs7_pad` — the padding is removed again.
* `honest_login` — the login of such a client succeeds.
-/

namespace DbSaci.Server.Connection

open Wire Auth

/-! ### Ciphers that can be undone -/

/-- Ciphers and hexadecimal texts can be undone, and a text of whole blocks keeps its length. -/
structure Lawful (P : Primitives) : Prop where
  hex : ∀ b, P.hexDecode (P.hexUpper b) = .ok b
  cipher192 : ∀ key text, text.length % 16 = 0 → P.decrypt192 key (P.encrypt192 key text) = text
  cipher256 : ∀ key text, text.length % 16 = 0 → P.decrypt256 key (P.encrypt256 key text) = text
  length192 : ∀ key text, text.length % 16 = 0 → (P.encrypt192 key text).length = text.length
  length256 : ∀ key text, text.length % 16 = 0 → (P.encrypt256 key text).length = text.length

/-- A text with its padding: at least one byte, each the number of these bytes. -/
def padPkcs7 (text : List UInt8) : List UInt8 :=
  text ++ List.replicate (16 - text.length % 16) (UInt8.ofNat (16 - text.length % 16))

lemma length_padPkcs7 (text : List UInt8) : (padPkcs7 text).length % 16 = 0 := by
  rw [padPkcs7, List.length_append, List.length_replicate]
  omega

/-- **The padding is removed again.** -/
theorem unpadPkcs7_pad (text : List UInt8) : unpadPkcs7 (padPkcs7 text) = some text := by
  have hpos : 16 - text.length % 16 ≠ 0 := by omega
  have hle : 16 - text.length % 16 ≤ 16 := by omega
  rw [padPkcs7]
  generalize 16 - text.length % 16 = k at hpos hle
  have hnat : (UInt8.ofNat k).toNat = k := UInt8.toNat_ofNat_of_lt' (by change k < 256; omega)
  obtain ⟨j, rfl⟩ := Nat.exists_eq_succ_of_ne_zero hpos
  have hlast : (text ++ List.replicate (j + 1) (UInt8.ofNat (j + 1))).getLast? =
      some (UInt8.ofNat (j + 1)) := by
    rw [List.replicate_succ', ← List.append_assoc, List.getLast?_concat]
  have hne : ¬ (UInt8.ofNat (j + 1) = 0 ∨ 16 < (UInt8.ofNat (j + 1)).toNat) := by
    rw [hnat, not_or]
    refine ⟨fun hzero => ?_, by omega⟩
    have htoNat := congrArg UInt8.toNat hzero
    rw [hnat] at htoNat
    exact Nat.succ_ne_zero j htoNat
  have hsub : (text ++ List.replicate (j + 1) (UInt8.ofNat (j + 1))).length - (j + 1) =
      text.length := by
    rw [List.length_append, List.length_replicate]
    omega
  rw [unpadPkcs7, hlast]
  dsimp only
  rw [if_neg hne, hnat, hsub, List.drop_left, List.take_left, if_pos]
  rw [List.all_replicate]
  simp

section Ciphers

variable {P : Primitives} {n : ℕ} {key text : List UInt8} {message : String}
  {encrypt decrypt : Bytes n → List UInt8 → List UInt8}

lemma encryptNoPadding_ok (hkey : key.length = n) (htext : text.length % 16 = 0) :
    encryptNoPadding encrypt key text = .ok (encrypt ⟨key, hkey⟩ text) := by
  rw [encryptNoPadding, keyOf_ok hkey]
  exact if_pos htext

/-- What has been encrypted is decrypted. -/
lemma decryptNoPadding_encrypt (hkey : key.length = n) (htext : text.length % 16 = 0)
    (hcipher : decrypt ⟨key, hkey⟩ (encrypt ⟨key, hkey⟩ text) = text)
    (hlength : (encrypt ⟨key, hkey⟩ text).length = text.length) :
    decryptNoPadding decrypt message key (encrypt ⟨key, hkey⟩ text) = .ok text := by
  rw [decryptNoPadding, keyOf_ok hkey]
  change (if _ then _ else _) = _
  rw [if_pos (by rw [hlength]; exact htext), hcipher]

/-- What has been padded and encrypted is decrypted. -/
lemma decryptPkcs7_encrypt (hkey : key.length = n)
    (hcipher : decrypt ⟨key, hkey⟩ (encrypt ⟨key, hkey⟩ (padPkcs7 text)) = padPkcs7 text)
    (hlength : (encrypt ⟨key, hkey⟩ (padPkcs7 text)).length = (padPkcs7 text).length) :
    decryptPkcs7 decrypt message key (encrypt ⟨key, hkey⟩ (padPkcs7 text)) = .ok text := by
  rw [decryptPkcs7, keyOf_ok hkey]
  change (if _ then _ else _) = _
  rw [if_pos (by rw [hlength]; exact length_padPkcs7 text), hcipher, unpadPkcs7_pad]

end Ciphers

/-! ### The client -/

/-- What the first answer of the server has for the client. -/
structure Offer where
  verifier : Verifier
  sesskey : List Char
  vfr : List Char
  cskSalt : Option (List Char)
  vgenCount : ℕ
  sderCount : ℕ

/-- The offer in an answer. -/
def Event.offer : Event → Option Offer
  | .phaseOne11g sesskey vfr => some ⟨.v11g, sesskey, vfr, none, 0, 0⟩
  | .phaseOne _ sesskey vfr cskSalt vgenCount sderCount =>
    some ⟨.v12c, sesskey, vfr, some cskSalt, vgenCount, sderCount⟩
  | _ => none

/-- A client: the password it was given, and what it makes up at random. -/
structure Client where
  password : List UInt8
  half : List UInt8
  salt : Bytes 16
  sendsSpeedyKey : Bool

/-- The key for the halves of the session key. -/
def sesskeyKey (P : Primitives) (s : AuthState) : List UInt8 :=
  match s.verifier with
  | .v11g => passwordHash11g P s.password s.vfrData.1
  | .v12c => passwordHash12c P s.password s.vfrData.1 s.vgenCount

/-- A text under a key, by the verifier. -/
def encryptText (P : Primitives) (s : AuthState) (key text : List UInt8) : Outcome (List UInt8) :=
  match s.verifier with
  | .v11g => aes192EncryptNoPadding P key text
  | .v12c => aes256EncryptNoPadding P key text

/-- A text that has been under a key, by the verifier. -/
def decryptText (P : Primitives) (s : AuthState) (key text : List UInt8) : Outcome (List UInt8) :=
  match s.verifier with
  | .v11g => aes192DecryptNoPadding P key text
  | .v12c => aes256DecryptNoPadding P key text

namespace Client

variable (P : Primitives) (c : Client)

/-- A salt of 16 bytes, if there is one. -/
def readSalt : Option (List Char) → Outcome (Option (Bytes 16))
  | none => .ok none
  | some text => do
    let salt ← decodeHex P text
    if h : salt.length = 16 then .ok (some ⟨salt, h⟩) else .error (.failed "bad salt")

/-- The client reads an offer: with its password it finds the half of the server. -/
def read (o : Offer) : Outcome AuthState := do
  let vfr ← decodeHex P o.vfr
  let sesskey ← decodeHex P o.sesskey
  let cskSalt ← readSalt P o.cskSalt
  if h : vfr.length = 16 then do
    let s : AuthState := ⟨o.verifier, c.password, ⟨vfr, h⟩, [], none, cskSalt, o.vgenCount,
      o.sderCount⟩
    let serverA ← decryptSesskey P s sesskey
    .ok { s with serverA := serverA, clientB := some c.half }
  else .error (.failed "bad verifier data")

/-- The client answers: its half, and the password under the key made of both halves. -/
def answer (s : AuthState) : Outcome (List (String × List UInt8)) := do
  let sesskey ← encryptText P s (sesskeyKey P s) c.half
  let key ← comboKey P s
  let proof ← encryptText P s key (padPkcs7 (c.salt.1 ++ c.password))
  let text (b : List UInt8) := utf8Encode (P.hexUpper b)
  let pairs := [("AUTH_PASSWORD", text proof), ("AUTH_SESSKEY", text sesskey)]
  match s.verifier, c.sendsSpeedyKey with
  | .v12c, true => do
    let speedyKey ← encryptText P s key
      (c.salt.1 ++ passwordKey12c P c.password s.vfrData.1 s.vgenCount)
    .ok (("AUTH_PBKDF2_SPEEDY_KEY", text speedyKey) :: pairs)
  | _, _ => .ok pairs

end Client

/-- The client is sure of the server: behind 16 bytes of its response is the mark of the server. -/
def Confirms (P : Primitives) (s : AuthState) (svrResponse : List Char) : Prop :=
  ∃ response key plaintext, decodeHex P svrResponse = .ok response ∧ comboKey P s = .ok key ∧
    decryptText P s key response = .ok plaintext ∧
    (plaintext.drop 16).take 16 = utf8Encode "SERVER_TO_CLIENT".toList

/-! ### Texts under the keys of a login -/

section Texts

variable {P : Primitives} {s : AuthState} {key text : List UInt8}

lemma decodeHex_hexUpper (hP : Lawful P) (b : List UInt8) : decodeHex P (P.hexUpper b) = .ok b := by
  rw [decodeHex, hP.hex]

lemma length_sesskeyKey (P : Primitives) (s : AuthState) :
    (sesskeyKey P s).length = s.verifier.keyLength := by
  unfold sesskeyKey
  cases s.verifier with
  | v11g =>
    change (passwordHash11g P s.password s.vfrData.1).length = 24
    rw [passwordHash11g, List.length_append, (P.sha1 _).2, List.length_replicate]
  | v12c =>
    change (passwordHash12c P s.password s.vfrData.1 s.vgenCount).length = 32
    rw [passwordHash12c, List.length_take, (P.sha512 _).2]
    rfl

variable (hP : Lawful P)

include hP

/-- **A text under a key is found again.** -/
lemma encryptText_ok (hkey : key.length = s.verifier.keyLength) (htext : text.length % 16 = 0) :
    ∃ cipher, encryptText P s key text = .ok cipher ∧ decryptText P s key cipher = .ok text := by
  unfold encryptText decryptText
  cases hv : s.verifier with
  | v11g =>
    rw [hv] at hkey
    exact ⟨_, encryptNoPadding_ok hkey htext,
      decryptNoPadding_encrypt hkey htext (hP.cipher192 _ _ htext) (hP.length192 _ _ htext)⟩
  | v12c =>
    rw [hv] at hkey
    exact ⟨_, encryptNoPadding_ok hkey htext,
      decryptNoPadding_encrypt hkey htext (hP.cipher256 _ _ htext) (hP.length256 _ _ htext)⟩

/-- A proof is found again without its padding. -/
lemma encryptText_pad (hkey : key.length = s.verifier.keyLength) (hcombo : comboKey P s = .ok key)
    (text : List UInt8) : ∃ cipher, encryptText P s key (padPkcs7 text) = .ok cipher ∧
      decryptProof P s (P.hexUpper cipher) = .ok text := by
  have hpad := length_padPkcs7 text
  unfold encryptText decryptProof
  cases hv : s.verifier with
  | v11g =>
    rw [hv] at hkey
    refine ⟨_, encryptNoPadding_ok hkey hpad, ?_⟩
    rw [decodeHex_hexUpper hP, hcombo]
    exact decryptPkcs7_encrypt hkey (hP.cipher192 _ _ hpad) (hP.length192 _ _ hpad)
  | v12c =>
    rw [hv] at hkey
    refine ⟨_, encryptNoPadding_ok hkey hpad, ?_⟩
    rw [decodeHex_hexUpper hP, hcombo]
    exact decryptPkcs7_encrypt hkey (hP.cipher256 _ _ hpad) (hP.length256 _ _ hpad)

/-- A proof with a salt and the password is accepted. -/
lemma verifyPassword_pad (hkey : key.length = s.verifier.keyLength)
    (hcombo : comboKey P s = .ok key) (salt : Bytes 16) :
    ∃ cipher, encryptText P s key (padPkcs7 (salt.1 ++ s.password)) = .ok cipher ∧
      verifyPassword P s (P.hexUpper cipher) = .ok () := by
  obtain ⟨cipher, hcipher, hproof⟩ := encryptText_pad hP hkey hcombo (salt.1 ++ s.password)
  refine ⟨cipher, hcipher, (verifyPassword_ok_iff P s _).2 ⟨salt.1, [], ?_, salt.2⟩⟩
  rw [hproof, List.append_nil]

omit hP in
/-- What stands behind a salt. -/
lemma slice_salt (salt : Bytes 16) (secret : List UInt8) :
    slice (salt.1 ++ secret) 16 (16 + secret.length) = .ok secret := by
  have hlength : 16 + secret.length ≤ (salt.1 ++ secret).length := by
    rw [List.length_append, salt.2]
  rw [slice_ok (Nat.le_add_right _ _) hlength, Nat.add_sub_cancel_left, List.drop_left' salt.2,
    List.take_length]

/-- A speedy key with a salt is accepted. -/
lemma verifySpeedyKey_ok (hv : s.verifier = .v12c) (hkey : key.length = s.verifier.keyLength)
    (hcombo : comboKey P s = .ok key) (salt : Bytes 16) :
    ∃ cipher, encryptText P s key
        (salt.1 ++ passwordKey12c P s.password s.vfrData.1 s.vgenCount) = .ok cipher ∧
      verifySpeedyKey P s (P.hexUpper cipher) = .ok () := by
  have hlength : (passwordKey12c P s.password s.vfrData.1 s.vgenCount).length = 64 :=
    (P.pbkdf2Sha512 _ _ _ 64).2
  have htext : (salt.1 ++ passwordKey12c P s.password s.vfrData.1 s.vgenCount).length % 16 = 0 := by
    rw [List.length_append, salt.2, hlength]
  obtain ⟨cipher, hcipher, hplain⟩ := encryptText_ok hP hkey htext
  refine ⟨cipher, hcipher, ?_⟩
  unfold decryptText at hplain
  rw [hv] at hplain
  dsimp only at hplain
  unfold verifySpeedyKey
  rw [hv]
  dsimp only
  rw [decodeHex_hexUpper hP, hcombo]
  change (aes256DecryptNoPadding P key cipher >>= fun plaintext => _) = _
  rw [hplain]
  have hlong : ¬ (salt.1 ++ passwordKey12c P s.password s.vfrData.1 s.vgenCount).length <
      16 + (passwordKey12c P s.password s.vfrData.1 s.vgenCount).length := by
    rw [List.length_append, salt.2]
    omega
  change (if _ then _ else _) = _
  rw [if_neg hlong, slice_salt]
  exact if_neg fun hne => hne rfl

/-- The response of the server is made, and its mark is found. -/
lemma svrResponse_ok (hkey : key.length = s.verifier.keyLength)
    (hcombo : comboKey P s = .ok key) : ∃ response, svrResponse P s = .ok response ∧
      ∃ plaintext, decryptText P s key response = .ok plaintext ∧
        (plaintext.drop 16).take 16 = utf8Encode "SERVER_TO_CLIENT".toList := by
  have hmark : (List.replicate 16 (0 : UInt8) ++ utf8Encode "SERVER_TO_CLIENT".toList ++
      List.replicate 16 0x10).length % 16 = 0 := by decide +kernel
  obtain ⟨response, hresponse, hplain⟩ := encryptText_ok hP hkey hmark
  refine ⟨response, ?_, _, hplain, by decide +kernel⟩
  unfold svrResponse
  rw [hcombo]
  unfold encryptText at hresponse
  exact hresponse

end Texts

/-! ### What has been offered -/

variable {env : Environment}

/-- A step that waits for a proof has made an offer. -/
lemma step_offers {phase : Phase} {p : Packet} {l : Login} (h : (step env phase p).1 = .proving l) :
    ∃ sesskey, phaseOneSesskey env.primitives l.auth = .ok sesskey ∧
      (step env phase p).2.getLast? = some (phaseOneResponse env l.negotiated l.auth sesskey) := by
  have haccept : ∀ payload, (acceptConnect payload).1 ≠ .proving l := by
    intro payload
    unfold acceptConnect
    split <;> simp
  cases phase with
  | connecting =>
    rw [step] at h
    split_ifs at h
    exact absurd h (haccept p.payload)
  | reconnecting =>
    rw [step] at h
    split_ifs at h
    exact absurd h (haccept p.payload)
  | negotiating n =>
    rw [step] at h ⊢
    unfold negotiate at h ⊢
    dsimp only at h ⊢
    split_ifs at h ⊢
    · split at h <;> cases h
    · unfold phaseOne at h ⊢
      split at h
      · cases h
      · split at h
        · cases h
        · dsimp only at h ⊢
          split at h
          · cases h
          next sesskey hsesskey =>
            obtain rfl := Phase.proving.inj h
            exact ⟨sesskey, hsesskey, rfl⟩
  | proving l' =>
    have hlast := @phaseTwo_isLast env l' p
    rw [step] at h
    rw [h] at hlast
    cases hlast
  | serving l' => cases h
  | ended e => cases h

/-- **A client whose proof is awaited has been made an offer.** -/
lemma run_offers {ps : List Packet} {l : Login} (h : (run env .connecting ps).1 = .proving l) :
    l.Sound env ∧ ∃ sesskey, phaseOneSesskey env.primitives l.auth = .ok sesskey ∧
      (run env .connecting ps).2.getLast? =
        some (phaseOneResponse env l.negotiated l.auth sesskey) := by
  have hstart : Phase.connecting.Sound env := trivial
  have hsound := run_sound hstart ps
  rw [h] at hsound
  refine ⟨hsound, ?_⟩
  induction ps using List.reverseRecOn with
  | nil => cases h
  | append_singleton ps p _ =>
    have hone : ∀ phase, run env phase [p] = step env phase p := fun phase => by
      rw [run, run, List.append_nil]
    rw [run_append, hone] at h ⊢
    obtain ⟨sesskey, hsesskey, hevent⟩ := step_offers h
    refine ⟨sesskey, hsesskey, ?_⟩
    rw [List.getLast?_append, hevent]
    rfl

/-! ### The login of a client -/

/-- The state of both sides behind the half of the client. -/
def agreed (l : Login) (c : Client) : AuthState := { l.auth with clientB := some c.half }

lemma phaseOneSesskey_eq (P : Primitives) (s : AuthState) :
    phaseOneSesskey P s = encryptText P s (sesskeyKey P s) s.serverA := by
  unfold phaseOneSesskey encryptText sesskeyKey
  cases s.verifier <;> rfl

lemma decryptSesskey_eq (P : Primitives) (s : AuthState) (cipher : List UInt8) :
    decryptSesskey P s cipher = decryptText P s (sesskeyKey P s) cipher := by
  unfold decryptSesskey decryptText sesskeyKey
  cases s.verifier <;> rfl

/-- What a client makes of an offer whose parts it can read. -/
lemma read_eq {P : Primitives} {c : Client} {o : Offer} {vfr : Bytes 16} {sesskey : List UInt8}
    {cskSalt : Option (Bytes 16)} {serverA : List UInt8} (hvfr : decodeHex P o.vfr = .ok vfr.1)
    (hsesskey : decodeHex P o.sesskey = .ok sesskey)
    (hsalt : Client.readSalt P o.cskSalt = .ok cskSalt)
    (hserver : decryptSesskey P
      ⟨o.verifier, c.password, vfr, [], none, cskSalt, o.vgenCount, o.sderCount⟩ sesskey =
        .ok serverA) :
    c.read P o = .ok ⟨o.verifier, c.password, vfr, serverA, some c.half, cskSalt, o.vgenCount,
      o.sderCount⟩ := by
  obtain ⟨vfr, hlength⟩ := vfr
  rw [Client.read, hvfr, hsesskey, hsalt]
  change (if h : vfr.length = 16 then _ else _) = _
  rw [dif_pos hlength]
  change (decryptSesskey P ⟨o.verifier, c.password, ⟨vfr, hlength⟩, [], none, cskSalt, o.vgenCount,
    o.sderCount⟩ sesskey >>= fun serverA => _) = _
  rw [hserver]
  rfl

/-- A salt that has been sent is found. -/
lemma readSalt_hexUpper {P : Primitives} (hP : Lawful P) (salt : Bytes 16) :
    Client.readSalt P (some (P.hexUpper salt.1)) = .ok (some salt) := by
  unfold Client.readSalt
  dsimp only
  rw [decodeHex_hexUpper hP]
  exact dif_pos salt.2

/-- The client finds the half of the server in the offer, and is in the same state as the server. -/
lemma read_offer {l : Login} (hP : Lawful env.primitives) (hsound : l.Sound env) {c : Client}
    (hpassword : c.password = utf8Encode l.password) {sesskey : List UInt8}
    (hsesskey : phaseOneSesskey env.primitives l.auth = .ok sesskey) :
    ∃ o, (phaseOneResponse env l.negotiated l.auth sesskey).offer = some o ∧
      c.read env.primitives o = .ok (agreed l c) := by
  obtain ⟨negotiated, user, password, auth⟩ := l
  obtain ⟨-, hfresh⟩ := hsound
  dsimp only at hfresh
  subst hfresh
  obtain ⟨cpassword, half, salt, sends⟩ := c
  obtain rfl : cpassword = utf8Encode password := hpassword
  dsimp only at hsesskey
  have hserver : (AuthState.new (utf8Encode password) (challenge env negotiated)).serverA.length %
      16 = 0 := by
    unfold challenge
    split_ifs
    · change env.serverHalf11g.1.length % 16 = 0
      rw [env.serverHalf11g.2]
    · change env.serverHalf12c.1.length % 16 = 0
      rw [env.serverHalf12c.2]
  obtain ⟨cipher, hcipher, hplain⟩ := encryptText_ok hP (length_sesskeyKey env.primitives
    (AuthState.new (utf8Encode password) (challenge env negotiated))) hserver
  rw [phaseOneSesskey_eq, hcipher] at hsesskey
  obtain rfl := Except.ok.inj hsesskey
  rw [← decryptSesskey_eq] at hplain
  unfold phaseOneResponse
  unfold challenge at hplain ⊢
  split_ifs at hplain ⊢ with h11g
  · exact ⟨_, rfl, read_eq (decodeHex_hexUpper hP env.vfr.1) (decodeHex_hexUpper hP cipher) rfl
      hplain⟩
  · exact ⟨_, rfl, read_eq (decodeHex_hexUpper hP env.vfr.1) (decodeHex_hexUpper hP cipher)
      (readSalt_hexUpper hP env.cskSalt) hplain⟩

/-- The server takes the half of the client. -/
lemma setClientSesskey_agreed {P : Primitives} (hP : Lawful P) {l : Login} {c : Client}
    {cipher : List UInt8}
    (hplain : decryptText P l.auth (sesskeyKey P l.auth) cipher = .ok c.half) :
    setClientSesskey P l.auth (P.hexUpper cipher) = .ok (agreed l c) := by
  rw [← decryptSesskey_eq] at hplain
  rw [setClientSesskey, decodeHex_hexUpper hP]
  change (decryptSesskey P l.auth cipher >>= fun plaintext => _) = _
  rw [hplain]
  rfl

/-- The login that has been proved, behind the half of the client. -/
lemma restOfLogin_ok {P : Primitives} (hP : Lawful P) {s : AuthState} {key : List UInt8}
    (hkey : key.length = s.verifier.keyLength) (hcombo : comboKey P s = .ok key)
    {authPassword : List Char} (hpassword : verifyPassword P s authPassword = .ok ())
    {speedyKey : Option (List Char)} (hspeedy : verifySpeedyKey? P s speedyKey = .ok ()) :
    ∃ response, restOfLogin P s authPassword speedyKey = .ok (P.hexUpper response) ∧
      ∃ plaintext, decryptText P s key response = .ok plaintext ∧
        (plaintext.drop 16).take 16 = utf8Encode "SERVER_TO_CLIENT".toList := by
  obtain ⟨response, hresponse, hmark⟩ := svrResponse_ok hP hkey hcombo
  refine ⟨response, ?_, hmark⟩
  rw [restOfLogin, hpassword]
  change (verifySpeedyKey? P s speedyKey >>= fun _ => _) = _
  rw [hspeedy]
  change (svrResponse P s >>= fun response => _) = _
  rw [hresponse]
  rfl

/-- What the client answers is accepted: the values that the server looks up prove the password. -/
lemma answer_ok {P : Primitives} (hP : Lawful P) {l : Login} {c : Client}
    (hpassword : c.password = l.auth.password) (hblocks : c.half.length % 16 = 0)
    {key : List UInt8} (hkey : key.length = l.auth.verifier.keyLength)
    (hcombo : comboKey P (agreed l c) = .ok key) :
    ∃ pairs sesskey proof, c.answer P (agreed l c) = .ok pairs ∧
      lastValue pairs "AUTH_SESSKEY" = some sesskey ∧
      setClientSesskey P l.auth sesskey = .ok (agreed l c) ∧
      lastValue pairs "AUTH_PASSWORD" = some proof ∧
      verifyPassword P (agreed l c) proof = .ok () ∧
      verifySpeedyKey? P (agreed l c) (lastValue pairs "AUTH_PBKDF2_SPEEDY_KEY") = .ok () := by
  have hkey' : key.length = (agreed l c).verifier.keyLength := hkey
  obtain ⟨sesskey, hsesskey, hhalf⟩ := encryptText_ok hP (length_sesskeyKey P l.auth) hblocks
  obtain ⟨proof, hproof, hverify⟩ := verifyPassword_pad hP hkey' hcombo c.salt
  have hsame : c.password = (agreed l c).password := hpassword
  have hanswer : c.answer P (agreed l c) =
      match l.auth.verifier, c.sendsSpeedyKey with
      | .v12c, true => do
        let speedyKey ← encryptText P (agreed l c) key
          (c.salt.1 ++ passwordKey12c P c.password (agreed l c).vfrData.1 (agreed l c).vgenCount)
        .ok [("AUTH_PBKDF2_SPEEDY_KEY", utf8Encode (P.hexUpper speedyKey)),
          ("AUTH_PASSWORD", utf8Encode (P.hexUpper proof)),
          ("AUTH_SESSKEY", utf8Encode (P.hexUpper sesskey))]
      | _, _ => .ok [("AUTH_PASSWORD", utf8Encode (P.hexUpper proof)),
          ("AUTH_SESSKEY", utf8Encode (P.hexUpper sesskey))] := by
    have hsesskey' : encryptText P (agreed l c) (sesskeyKey P (agreed l c)) c.half = .ok sesskey :=
      hsesskey
    rw [Client.answer, hsesskey', hcombo, hsame]
    change (encryptText P (agreed l c) key (padPkcs7 (c.salt.1 ++ (agreed l c).password)) >>=
      fun proof => _) = _
    rw [hproof]
    rfl
  have htext : ∀ t : List Char, some (utf8Lossy (utf8Encode t)) = some t := fun t =>
    congrArg some (utf8Lossy_encode t)
  have hset := setClientSesskey_agreed hP hhalf
  rw [hanswer]
  split
  next hv hspeedy =>
    obtain ⟨speedyKey, hspeedyKey, haccept⟩ := verifySpeedyKey_ok hP (s := agreed l c) hv hkey'
      hcombo c.salt
    rw [hsame, hspeedyKey]
    refine ⟨_, P.hexUpper sesskey, P.hexUpper proof, rfl, htext _, hset, htext _, hverify, ?_⟩
    have hlast : lastValue [("AUTH_PBKDF2_SPEEDY_KEY", utf8Encode (P.hexUpper speedyKey)),
        ("AUTH_PASSWORD", utf8Encode (P.hexUpper proof)),
        ("AUTH_SESSKEY", utf8Encode (P.hexUpper sesskey))] "AUTH_PBKDF2_SPEEDY_KEY" =
          some (P.hexUpper speedyKey) := htext _
    rw [hlast]
    exact haccept
  · exact ⟨_, P.hexUpper sesskey, P.hexUpper proof, rfl, htext _, hset, htext _, hverify, rfl⟩

/-- A number below 256 is read back from two digits. -/
def readsBack (n : ℕ) : Bool :=
  match clearPrimitives.hexUpper [UInt8.ofNat n] with
  | [c, d] => hexDigit c == some (n / 16) && hexDigit d == some (n % 16)
  | _ => false

/-- A byte is read back from its digits. -/
lemma hexPairs_byte (b : UInt8) (text : List Char) :
    hexPairs (clearPrimitives.hexUpper [b] ++ text) = (hexPairs text).map (b :: ·) := by
  have hall : (List.range 256).all readsBack = true := by decide +kernel
  have hb := List.all_eq_true.1 hall b.toNat (List.mem_range.2 b.toNat_lt)
  unfold readsBack at hb
  rw [UInt8.ofNat_toNat] at hb
  split at hb
  next c d htext =>
    rw [Bool.and_eq_true, beq_iff_eq, beq_iff_eq] at hb
    rw [htext, List.cons_append, List.cons_append, List.nil_append, hexPairs, hb.1, hb.2]
    dsimp only
    rw [Nat.div_add_mod, UInt8.ofNat_toNat]
  next => cases hb

lemma clear_lawful : Lawful clearPrimitives where
  hex b := by
    induction b with
    | nil => rfl
    | cons b bytes ih =>
      have hcons : clearPrimitives.hexUpper (b :: bytes) =
          clearPrimitives.hexUpper [b] ++ clearPrimitives.hexUpper bytes := by
        simp [clearPrimitives]
      change hexPairs (clearPrimitives.hexUpper (b :: bytes)) = _
      rw [hcons, hexPairs_byte]
      have ih : hexPairs (clearPrimitives.hexUpper bytes) = .ok bytes := ih
      rw [ih]
      rfl
  cipher192 _ _ _ := rfl
  cipher256 _ _ _ := rfl
  length192 _ _ _ := rfl
  length256 _ _ _ := rfl

/-- The first message of a login, with an empty name and without keys. -/
def phaseOneRequest : Packet := ⟨.data, 0, [0, 0, 0x03, 0x76, 1, 1, 0, 0, 1, 0, 1, 1]⟩

/-- The login that it starts. -/
def emptyLogin : Login :=
  ⟨.start, [], "tiger".toList, .new (utf8Encode "tiger".toList) (challenge clearEnvironment .start)⟩

/-- A client of the server that does not encrypt. -/
def clearClient : Client :=
  ⟨utf8Encode "tiger".toList, List.replicate 32 0, zeros 16, true⟩

end DbSaci.Server.Connection
