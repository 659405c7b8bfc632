import DbSaci.Library.Json
import DbSaci.Translate.CommonDdl

set_option relaxedAutoImplicit false
set_option autoImplicit false

/-!
# Who may list and abort sessions

The health endpoint answers probes from everyone. The sessions are for those who know the token,
and for everyone if the endpoint is bound to a loopback address and has no token.

## Main definitions

* `readIpv4`, `readIpv6`, `parseIp` — `IpAddr::from_str`.
* `parseBindHost`, `isLoopbackBind` — whether the endpoint can be reached from this machine only.
* `tokenMatches` — a header line has the token.
* `HealthAuth.authorizeSessions` — a request may list or abort sessions.

## Main results

* `isLoopbackBind_ipv4` — of the addresses in dotted form, those that start with 127.
* `HealthAuth.knows_of_authorizeSessions` — a request that may has the token in its header line.
* `HealthAuth.authorizeSessions_bearer` — a request with the token may.
-/

namespace DbSaci.Server.Health

open Text
open Translate.Ddl (stripPrefix)

/-! ### Addresses -/

/-- `char::to_digit`. -/
def toDigit (radix : ℕ) (c : Char) : Option ℕ :=
  let digit :=
    if '0' ≤ c ∧ c ≤ '9' then some (c.toNat - 48)
    else if 'a' ≤ c ∧ c ≤ 'z' then some (c.toNat - 87)
    else if 'A' ≤ c ∧ c ≤ 'Z' then some (c.toNat - 55)
    else none
  digit.filter fun d => d < radix

/-- The digits a text starts with, and what stands behind them. -/
def takeDigits (radix : ℕ) : List Char → List ℕ × List Char
  | [] => ([], [])
  | c :: s =>
    match toDigit radix c with
    | some d => (d :: (takeDigits radix s).1, (takeDigits radix s).2)
    | none => ([], c :: s)

/-- `read_number`: a number below a limit with so many digits at most. -/
def readNumber (radix maxDigits limit : ℕ) (allowZeroPrefix : Bool) (s : List Char) :
    Option (ℕ × List Char) :=
  let (digits, rest) := takeDigits radix s
  let value := digits.foldl (fun n d => n * radix + d) 0
  if digits = [] ∨ maxDigits < digits.length ∨ limit ≤ value ∨
      allowZeroPrefix = false ∧ digits.head? = some 0 ∧ 1 < digits.length then none
  else some (value, rest)

/-- `read_separator`: nothing stands before the first part. -/
def readSeparator {α : Type} (sep : Char) (index : ℕ) (read : List Char → Option (α × List Char))
    (s : List Char) : Option (α × List Char) :=
  if index = 0 then read s
  else
    match s with
    | c :: s => if c = sep then read s else none
    | [] => none

/-- Parts of an IPv4 address. -/
def readOctets : ℕ → ℕ → List Char → Option (List ℕ × List Char)
  | 0, _, s => some ([], s)
  | n + 1, index, s =>
    (readSeparator '.' index (readNumber 10 3 256 false) s).bind fun (octet, s) =>
      (readOctets n (index + 1) s).map fun (octets, s) => (octet :: octets, s)

/-- `read_ipv4_addr`. -/
def readIpv4 (s : List Char) : Option (List ℕ × List Char) := readOctets 4 0 s

/-- `read_groups`: parts of an IPv6 address, and whether they end with an IPv4 address. -/
def readGroups : ℕ → ℕ → List Char → List ℕ × Bool × List Char
  | 0, _, s => ([], false, s)
  | n + 1, index, s =>
    match if 0 < n then readSeparator ':' index readIpv4 s else none with
    | some (octets, s) =>
      ([octets.getD 0 0 * 256 + octets.getD 1 0, octets.getD 2 0 * 256 + octets.getD 3 0], true, s)
    | none =>
      match readSeparator ':' index (readNumber 16 4 65536 true) s with
      | some (group, s) =>
        let (groups, ipv4, s) := readGroups n (index + 1) s
        (group :: groups, ipv4, s)
      | none => ([], false, s)

/-- `read_ipv6_addr`. -/
def readIpv6 (s : List Char) : Option (List ℕ × List Char) :=
  let (head, ipv4, s) := readGroups 8 0 s
  if head.length = 8 then some (head, s)
  else if ipv4 then none
  else
    match s with
    | ':' :: ':' :: s =>
      let (tail, _, s) := readGroups (8 - (head.length + 1)) 0 s
      some (head ++ List.replicate (8 - (head.length + tail.length)) 0 ++ tail, s)
    | _ => none

/-- `IpAddr`: octets, or groups of sixteen bits. -/
inductive IpAddr
  | v4 (octets : List ℕ)
  | v6 (groups : List ℕ)
  deriving DecidableEq, Repr

/-- `IpAddr::from_str`. -/
def parseIp (s : List Char) : Option IpAddr :=
  match readIpv4 s with
  | some (octets, rest) => if rest = [] then some (.v4 octets) else none
  | none =>
    match readIpv6 s with
    | some (groups, rest) => if rest = [] then some (.v6 groups) else none
    | none => none

/-- `IpAddr::is_loopback`. -/
def IpAddr.isLoopback : IpAddr → Bool
  | .v4 octets => octets.head? == some 127
  | .v6 groups => groups == [0, 0, 0, 0, 0, 0, 0, 1]

/-- `parse_bind_host`: the host of `host:port`. -/
def parseBindHost (addr : List Char) : List Char :=
  match addr with
  | '[' :: rest => rest.takeWhile fun c => c ≠ ']'
  | _ => if ':' ∈ addr then (addr.rdropWhile fun c => c ≠ ':').dropLast else addr

/-- `trim_matches`. -/
def trimMatches (p : Char → Bool) (s : List Char) : List Char := (s.dropWhile p).rdropWhile p

/-- `is_loopback_bind`. -/
def isLoopbackBind (addr : List Char) : Bool :=
  let host := trimMatches (fun c => c == '[' || c == ']') (trim (parseBindHost addr))
  if host.map Char.toLower = "localhost".toList ∨ host = "::1".toList then true
  else
    match parseIp host with
    | some ip => ip.isLoopback
    | none => false

/-- An IPv4 address in dotted form. -/
def ipv4Text (a b c d : ℕ) : List Char :=
  Nat.toDigits 10 a ++ '.' :: (Nat.toDigits 10 b ++ '.' :: (Nat.toDigits 10 c ++ '.' ::
    Nat.toDigits 10 d))

lemma isDigit_toDigits {n : ℕ} {c : Char} (hc : c ∈ Nat.toDigits 10 n) : c.isDigit = true :=
  Nat.isDigit_of_mem_toDigits (by omega) (by omega) hc

lemma toDigit_of_isDigit {c : Char} (h : c.isDigit = true) :
    toDigit 10 c = some (c.toNat - 48) := by
  rw [Char.isDigit, Bool.and_eq_true, decide_eq_true_eq, decide_eq_true_eq] at h
  have hlow : '0' ≤ c := h.1
  have hhigh : c ≤ '9' := h.2
  have hnat : c.toNat ≤ 57 := h.2
  have hlt : decide (c.toNat - 48 < 10) = true := by
    rw [decide_eq_true_eq]
    omega
  rw [toDigit, if_pos ⟨hlow, hhigh⟩, Option.filter_some, if_pos hlt]

/-- The digits of a number are taken. -/
lemma takeDigits_append {ds rest : List Char} (h : ∀ c ∈ ds, c.isDigit = true)
    (hrest : ∀ c ∈ rest.head?, toDigit 10 c = none) :
    takeDigits 10 (ds ++ rest) = (ds.map fun c => c.toNat - 48, rest) := by
  induction ds with
  | nil =>
    cases rest with
    | nil => rfl
    | cons c rest =>
      rw [List.nil_append, takeDigits, hrest c rfl]
      rfl
  | cons c ds ih =>
    obtain ⟨hc, hds⟩ := List.forall_mem_cons.1 h
    rw [List.cons_append, takeDigits, toDigit_of_isDigit hc, ih hds]
    rfl

/-- A part of an address is read from its digits. -/
lemma readNumber_octet {n : ℕ} (hn : n < 256) {rest : List Char}
    (hrest : ∀ c ∈ rest.head?, toDigit 10 c = none) :
    readNumber 10 3 256 false (Nat.toDigits 10 n ++ rest) = some (n, rest) := by
  have hvalue : ((Nat.toDigits 10 n).map fun c => c.toNat - 48).foldl (fun n d => n * 10 + d) 0 =
      n := by
    refine Eq.trans ?_ (Nat.ofDigitChars_ten_toDigits (n := n))
    rw [List.foldl_map, Nat.ofDigitChars]
    congr 1
    funext m c
    rw [Nat.mul_comm]
    rfl
  have hlength : (Nat.toDigits 10 n).length ≤ 3 :=
    (Nat.length_toDigits_le_iff (by omega) (by omega)).2 (by omega)
  have hplain : ¬ ((Nat.toDigits 10 n).map (fun c => c.toNat - 48) = [] ∨
      3 < ((Nat.toDigits 10 n).map fun c => c.toNat - 48).length ∨ 256 ≤ n ∨
      false = false ∧ ((Nat.toDigits 10 n).map fun c => c.toNat - 48).head? = some 0 ∧
        1 < ((Nat.toDigits 10 n).map fun c => c.toNat - 48).length) := by
    rw [List.map_eq_nil_iff, List.length_map, List.head?_map]
    rintro (hnil | hlong | hbig | ⟨-, hhead, hmore⟩)
    · exact Nat.toDigits_ne_nil hnil
    · omega
    · omega
    · obtain ⟨c, hc, hzero⟩ := Option.map_eq_some_iff.1 hhead
      have hdigit : c.isDigit = true := isDigit_toDigits (List.mem_of_head? hc)
      rw [Char.isDigit, Bool.and_eq_true, decide_eq_true_eq, decide_eq_true_eq] at hdigit
      have hlow : 48 ≤ c.toNat := hdigit.1
      have hchar : c = '0' := Char.toNat_inj.1 (show c.toNat = 48 by omega)
      rw [JsonText.eq_zero_of_head n (hchar ▸ hc), Nat.toDigits_zero] at hmore
      exact absurd hmore (by decide)
  rw [readNumber, takeDigits_append (fun c hc => isDigit_toDigits hc) hrest]
  dsimp only
  rw [hvalue, if_neg hplain]

/-- An address is read from its dotted form. -/
lemma readIpv4_text {a b c d : ℕ} (ha : a < 256) (hb : b < 256) (hc : c < 256) (hd : d < 256) :
    readIpv4 (ipv4Text a b c d) = some ([a, b, c, d], []) := by
  have hdot : ∀ s : List Char, ∀ c ∈ ('.' :: s).head?, toDigit 10 c = none := by
    intro s c hmem
    rw [List.head?_cons, Option.mem_some_iff] at hmem
    rw [← hmem]
    rfl
  have hlast : readNumber 10 3 256 false (Nat.toDigits 10 d ++ []) = some (d, []) :=
    readNumber_octet hd fun c hmem => by cases hmem
  rw [List.append_nil] at hlast
  simp only [readIpv4, readOctets, readSeparator, ipv4Text, if_true, if_false, Nat.zero_add,
    Nat.reduceAdd, OfNat.ofNat_ne_zero, one_ne_zero, readNumber_octet ha (hdot _),
    readNumber_octet hb (hdot _), readNumber_octet hc (hdot _), hlast, Option.bind_some,
    Option.map_some]

/-- The host stands before the last colon. -/
lemma parseBindHost_append {c : Char} (hc : c ≠ '[') (s : List Char) {port : List Char}
    (hport : ':' ∉ port) : parseBindHost (c :: s ++ ':' :: port) = c :: s := by
  have hdrop : ((c :: s ++ [':']) ++ port).rdropWhile (fun c => c ≠ ':') = c :: s ++ [':'] := by
    rw [List.rdropWhile, List.reverse_append, List.dropWhile_append_of_pos]
    · rw [List.reverse_append, List.reverse_singleton, List.singleton_append,
        List.dropWhile_cons_of_neg (by simp), List.reverse_cons, List.reverse_reverse]
    · intro d hd
      rw [decide_eq_true_eq]
      rintro rfl
      exact hport (List.mem_reverse.1 hd)
  have hmem : ':' ∈ c :: s ++ ':' :: port :=
    List.mem_append_right _ List.mem_cons_self
  have hsplit : c :: s ++ ':' :: port = (c :: s ++ [':']) ++ port := by
    rw [List.append_assoc, List.singleton_append]
  rw [parseBindHost]
  · rw [if_pos hmem, hsplit, hdrop, List.dropLast_concat]
  · intro rest heq
    exact hc (List.cons.inj heq).1

/-- **Of the addresses in dotted form, those that start with 127 are loopback addresses.** -/
theorem isLoopbackBind_ipv4 {a b c d : ℕ} (ha : a < 256) (hb : b < 256) (hc : c < 256)
    (hd : d < 256) {port : List Char} (hport : ':' ∉ port) :
    isLoopbackBind (ipv4Text a b c d ++ ':' :: port) = decide (a = 127) := by
  obtain ⟨first, rest, hfirst⟩ :=
    List.exists_cons_of_ne_nil (Nat.toDigits_ne_nil (n := a) (b := 10))
  have hdigit : first.isDigit = true := isDigit_toDigits (hfirst ▸ List.mem_cons_self)
  have hsplit : ipv4Text a b c d = Nat.toDigits 10 a ++ (('.' :: (Nat.toDigits 10 b ++ '.' ::
      (Nat.toDigits 10 c ++ ['.']))) ++ Nat.toDigits 10 d) := by
    simp only [ipv4Text, List.append_assoc, List.cons_append, List.nil_append]
  obtain ⟨tail, htext⟩ : ∃ tail, ipv4Text a b c d = first :: tail := by
    rw [ipv4Text, hfirst]
    exact ⟨_, rfl⟩
  have hne : first ≠ '[' := by
    rintro rfl
    cases hdigit
  have hhost : parseBindHost (ipv4Text a b c d ++ ':' :: port) = ipv4Text a b c d := by
    rw [htext]
    exact parseBindHost_append hne tail hport
  have htrim : trim (ipv4Text a b c d) = ipv4Text a b c d := by
    rw [hsplit]
    exact trim_between Nat.toDigits_ne_nil Nat.toDigits_ne_nil (fun _ h => isDigit_toDigits h)
      (fun _ h => isDigit_toDigits h) _
  have hbracket : ∀ c : Char, c.isDigit = true → ¬ (c == '[' || c == ']') = true := by
    intro c hc
    rw [Bool.or_eq_true, beq_iff_eq, beq_iff_eq]
    rintro (rfl | rfl) <;> cases hc
  have hlast : (ipv4Text a b c d).getLast (by rw [htext]; exact List.cons_ne_nil _ _) ∈
      Nat.toDigits 10 d := by
    simp only [hsplit]
    rw [List.getLast_append_of_ne_nil _ (by simp), List.getLast_append_of_ne_nil _
      Nat.toDigits_ne_nil]
    exact List.getLast_mem _
  have hmatches : trimMatches (fun c => c == '[' || c == ']') (ipv4Text a b c d) =
      ipv4Text a b c d := by
    have hstart : (ipv4Text a b c d).dropWhile (fun c => c == '[' || c == ']') =
        ipv4Text a b c d := by
      rw [htext]
      exact List.dropWhile_cons_of_neg (hbracket first hdigit)
    rw [trimMatches, hstart, List.rdropWhile_eq_self_iff]
    exact fun _ => hbracket _ (isDigit_toDigits hlast)
  have hdot : '.' ∈ ipv4Text a b c d := List.mem_append_right _ List.mem_cons_self
  have hname : ¬ ((ipv4Text a b c d).map Char.toLower = "localhost".toList ∨
      ipv4Text a b c d = "::1".toList) := by
    rintro (heq | heq)
    · have hmem : '.' ∈ (ipv4Text a b c d).map Char.toLower := List.mem_map.2 ⟨'.', hdot, rfl⟩
      rw [heq] at hmem
      revert hmem
      decide
    · rw [heq] at hdot
      revert hdot
      decide
  have hparse : parseIp (ipv4Text a b c d) = some (.v4 [a, b, c, d]) := by
    rw [parseIp, readIpv4_text ha hb hc hd]
    rfl
  rw [isLoopbackBind, hhost, htrim, hmatches, if_neg hname, hparse]
  simp [IpAddr.isLoopback, Bool.beq_eq_decide_eq]

/-! ### The token -/

/-- The address of the endpoint, and the token. -/
structure HealthAuth where
  bind : List Char
  token : Option (List Char)
  deriving DecidableEq, Repr

/-- `token_matches`. -/
def tokenMatches (headerLine : Option (List Char)) (token : List Char) : Bool :=
  match headerLine with
  | none => false
  | some h =>
    let h := trim h
    let bearer := ((stripPrefix "Authorization:".toList h).or
      (stripPrefix "authorization:".toList h)).map trim
    match bearer with
    | some rest =>
      let rest := trim (((stripPrefix "Bearer ".toList rest).or
        (stripPrefix "bearer ".toList rest)).getD rest)
      rest == token
    | none =>
      let xtok := ((stripPrefix "X-Dbsaci-Token:".toList h).or
        (stripPrefix "x-dbsaci-token:".toList h)).map trim
      xtok == some token

namespace HealthAuth

/-- `sessions_require_token`. -/
def sessionsRequireToken (a : HealthAuth) : Bool := !isLoopbackBind a.bind

/-- `authorize_sessions`. -/
def authorizeSessions (a : HealthAuth) (headerLine : Option (List Char)) : Bool :=
  if a.sessionsRequireToken = false then
    -- on a loopback address the token is optional
    match a.token with
    | none => true
    | some tok => tokenMatches headerLine tok
  else
    match a.token with
    | none => false
    | some tok => tokenMatches headerLine tok

/-- The sessions are not for everyone. -/
def Restricted (a : HealthAuth) : Prop := a.sessionsRequireToken = true ∨ a.token.isSome = true

instance (a : HealthAuth) : Decidable a.Restricted := inferInstanceAs (Decidable (_ ∨ _))

/-- A text has the token in it. -/
def Knows (a : HealthAuth) (s : List Char) : Prop := ∃ token ∈ a.token, token <:+: s

end HealthAuth

/-! ### What has the token -/

lemma infix_trim (s : List Char) : trim s <:+: s := by
  have hend : trimEnd (trimStart s) <+: trimStart s := List.rdropWhile_prefix _ _
  have hstart : trimStart s <:+ s := List.dropWhile_suffix _
  exact hend.isInfix.trans hstart.isInfix

lemma infix_stripPrefix {p s t : List Char} (h : stripPrefix p s = some t) : t <:+: s := by
  rw [stripPrefix] at h
  split at h
  · obtain rfl := Option.some.inj h
    exact (List.drop_suffix _ _).isInfix
  · cases h

/-- What stands behind one of two words. -/
lemma infix_stripPrefixes {p q s t : List Char}
    (h : (stripPrefix p s).or (stripPrefix q s) = some t) : t <:+: s := by
  rcases Option.or_eq_some_iff.1 h with h | ⟨-, h⟩
  · exact infix_stripPrefix h
  · exact infix_stripPrefix h

/-- **A header line that has the right token** has it somewhere in its text. -/
theorem infix_of_tokenMatches {headerLine : Option (List Char)} {token : List Char}
    (h : tokenMatches headerLine token = true) : ∃ line ∈ headerLine, token <:+: line := by
  cases headerLine with
  | none => cases h
  | some line =>
    refine ⟨line, rfl, ?_⟩
    rw [tokenMatches] at h
    dsimp only at h
    split at h
    · rename_i rest hbearer
      obtain ⟨field, hfield, rfl⟩ := Option.map_eq_some_iff.1 hbearer
      have hline : trim field <:+: line :=
        (infix_trim field).trans ((infix_stripPrefixes hfield).trans (infix_trim line))
      rw [beq_iff_eq] at h
      rw [← h]
      refine (infix_trim _).trans (List.IsInfix.trans ?_ hline)
      cases hword : (stripPrefix "Bearer ".toList (trim field)).or
          (stripPrefix "bearer ".toList (trim field)) with
      | none => exact List.infix_refl _
      | some rest => exact infix_stripPrefixes hword
    · rw [beq_iff_eq] at h
      obtain ⟨field, hfield, rfl⟩ := Option.map_eq_some_iff.1 h
      exact (infix_trim field).trans ((infix_stripPrefixes hfield).trans (infix_trim line))

namespace HealthAuth

variable {a : HealthAuth} {headerLine : Option (List Char)}

/-- **Where the sessions are not for everyone, a request has to have the token.** -/
theorem knows_of_authorizeSessions (hrestricted : a.Restricted)
    (h : a.authorizeSessions headerLine = true) : ∃ line ∈ headerLine, a.Knows line := by
  obtain ⟨token, htoken, hmatches⟩ : ∃ token ∈ a.token, tokenMatches headerLine token = true := by
    rw [authorizeSessions] at h
    cases htoken : a.token with
    | none =>
      rw [htoken] at h
      split at h
      · rename_i hrequire
        rcases hrestricted with hneeds | hsome
        · rw [hrequire] at hneeds
          cases hneeds
        · rw [htoken] at hsome
          cases hsome
      · cases h
    | some token =>
      rw [htoken] at h
      refine ⟨token, rfl, ?_⟩
      split at h <;> exact h
  obtain ⟨line, hline, hinfix⟩ := infix_of_tokenMatches hmatches
  exact ⟨line, hline, token, htoken, hinfix⟩

/-- A header line with the token is enough. -/
lemma authorizeSessions_of_matches {token : List Char} (htoken : a.token = some token)
    (h : tokenMatches headerLine token = true) : a.authorizeSessions headerLine = true := by
  rw [authorizeSessions, htoken]
  split <;> exact h

end HealthAuth

/-- A text without white space at its ends, behind a blank. -/
lemma trim_blank {s : List Char} (h : Trimmed s) : trim (' ' :: s) = s := by
  have hgap : Gap [' '] := by
    intro c hc
    rw [List.mem_singleton.1 hc]
    rfl
  have hnil : Gap [] := fun _ h => absurd h List.not_mem_nil
  have htrim := trim_gaps hgap hnil h
  rwa [List.append_nil, List.singleton_append] at htrim

/-- A text that ends with a trimmed one is trimmed, if it starts so. -/
lemma trimmed_append {c : Char} {s t : List Char} (hc : isSpace c = false) (ht : Trimmed t) :
    Trimmed (c :: (s ++ t)) := by
  obtain ⟨hne, -, hlast⟩ := ht
  refine ⟨List.cons_ne_nil _ _, hc, ?_⟩
  rw [List.getLast_cons (by simp [hne]), List.getLast_append_of_ne_nil _ hne]
  exact hlast

/-- The header line of a client that knows a token. -/
def bearerLine (token : List Char) : List Char := "Authorization: Bearer ".toList ++ token

/-- **The header line of a client that knows the token** has the token. -/
theorem tokenMatches_bearer {token : List Char} (h : Trimmed token) :
    tokenMatches (some (bearerLine token)) token = true := by
  have hline : trim (bearerLine token) = "Authorization:".toList ++ ' ' :: ("Bearer ".toList ++
      token) := trim_of_trimmed (trimmed_append (c := 'A') rfl h)
  have hbearer : trim (' ' :: ("Bearer ".toList ++ token)) = "Bearer ".toList ++ token :=
    trim_blank (trimmed_append (c := 'B') (s := "earer ".toList) rfl h)
  have hstrip : ∀ p s : List Char, stripPrefix p (p ++ s) = some s := by
    intro p s
    rw [stripPrefix, if_pos (List.isPrefixOf_iff_prefix.2 (List.prefix_append p s)),
      List.drop_left]
  rw [tokenMatches]
  simp only [hline, hstrip, Option.some_or, Option.map_some, hbearer, Option.getD_some,
    trim_of_trimmed h, beq_self_eq_true]

end DbSaci.Server.Health
