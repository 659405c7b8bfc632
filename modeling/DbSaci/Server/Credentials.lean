import DbSaci.Server.ArrayBind

set_option relaxedAutoImplicit false
set_option autoImplicit false

/-!
# Passwords

The server has to know the password of each user, since a client only proves that it knows it. The
passwords come from a file, from a list in the environment and from the command line, one behind the
other, and there may be one for all users that are not named.

## Main definitions

* `Credentials` — the passwords, with `insert`, `extendPairs` and `passwordFor`.
* `buildCredentials` — the passwords of a configuration.
* `Item.parse`, `lastPassword` — what an item says, and the last password that is given to a user.

## Main results

* `Credentials.passwordFor_insert` — only the password of one user changes, whatever the letter case.
* `buildCredentials_eq` — which password a user has, and which configurations are refused.
-/

namespace DbSaci.Server

open Text

/-! ### The passwords -/

/-- The name of a user as a key. -/
def userKey (user : List Char) : List Char := (trim user).map Char.toLower

/-- The passwords of the users, and the one for all others. -/
structure Credentials where
  users : List (List Char × List Char)
  fallback : Option (List Char)
  keys_nodup : (users.map Prod.fst).Nodup

namespace Credentials

/-- `Credentials::default`. -/
def empty : Credentials := ⟨[], none, List.nodup_nil⟩

variable (creds : Credentials)

/-- `set_fallback`: an empty password is none. -/
def setFallback (password : Option (List Char)) : Credentials :=
  { creds with fallback := password.filter fun p => !p.isEmpty }

/-- `insert`: the password of a user, in place of an earlier one. -/
def insert (user password : List Char) : Credentials where
  users := (userKey user, password) :: creds.users.filter (·.1 ≠ userKey user)
  fallback := creds.fallback
  keys_nodup := by
    rw [List.map_cons, List.nodup_cons]
    refine ⟨?_, creds.keys_nodup.sublist (List.filter_sublist.map Prod.fst)⟩
    rw [List.mem_map]
    rintro ⟨entry, hentry, hkey⟩
    have hne := (List.mem_filter.1 hentry).2
    rw [hkey] at hne
    exact of_decide_eq_true hne rfl

/-- `password_for`. -/
def passwordFor (user : List Char) : Option (List Char) :=
  (creds.users.lookup (userKey user)).or creds.fallback

/-- `named_user_count`. -/
def namedUserCount : ℕ := creds.users.length

/-- `rejects_unknown_users`. -/
def rejectsUnknownUsers : Bool := creds.fallback.isNone

end Credentials

/-! ### The items of a configuration -/

/-- Why a configuration is refused, with the item that is wrong. -/
inductive CredentialError
  | notAPair (item : List Char)
  | emptyUser (item : List Char)
  | unreadable (message : List Char)
  deriving DecidableEq, Repr

/-- The text of the error, where a text in quotes is shown by the library. -/
def CredentialError.message (shown : List Char → List Char) : CredentialError → List Char
  | notAPair item => "credential ".toList ++ shown item ++ " is not ".toList ++
      ['\x60'] ++ "user:password".toList ++ ['\x60']
  | emptyUser item => "credential ".toList ++ shown item ++ " has an empty user".toList
  | unreadable message => message

namespace Item

/-- What an item says: nothing, or the password of a user. -/
def parse (item : List Char) : Except CredentialError (Option (List Char × List Char)) :=
  let item := trim item
  if item.isEmpty || item.head? == some '#' then .ok none
  else
    match splitOnce ':' item with
    | none => .error (.notAPair item)
    | some (user, password) =>
      if (trim user).isEmpty then .error (.emptyUser item) else .ok (some (user, password))

end Item

/-- The items of a text with a comma between them. -/
def commaItems (list : List Char) : List (List Char) := list.splitOn ','

/-- The text without a carriage return at its end. -/
def stripReturn (line : List Char) : List Char :=
  if line.getLast? = some '\r' then line.dropLast else line

/-- `lines`: a line end at the end of the text starts no line. -/
def textLines (text : List Char) : List (List Char) :=
  let parts := text.splitOn '\n'
  (if parts.getLast? = some [] then parts.dropLast else parts).map stripReturn

namespace Credentials

/-- `extend_pairs`: the passwords of some items, up to the first that is wrong. -/
def extendPairs : Credentials → List (List Char) → Except CredentialError Credentials
  | creds, [] => .ok creds
  | creds, item :: items =>
    match Item.parse item with
    | .error e => .error e
    | .ok none => creds.extendPairs items
    | .ok (some (user, password)) => (creds.insert user password).extendPairs items

/-- `extend_comma_list`. -/
def extendCommaList (creds : Credentials) (list : List Char) : Except CredentialError Credentials :=
  creds.extendPairs (commaItems list)

/-- `extend_file`, with what the file has: its text, or why it cannot be read. -/
def extendFile (creds : Credentials) :
    Except (List Char) (List Char) → Except CredentialError Credentials
  | .error message => .error (.unreadable message)
  | .ok text => creds.extendPairs (textLines text)

end Credentials

/-- Where the passwords of a configuration come from. -/
structure CredentialSources where
  dbUsersFile : Option (Except (List Char) (List Char))
  dbUsersList : Option (List Char)
  dbUsers : List (List Char)
  dbPassword : Option (List Char)

/-- `build_credentials`. -/
def buildCredentials (cli : CredentialSources) : Except CredentialError Credentials := do
  let creds ← match cli.dbUsersFile with
    | some file => Credentials.empty.extendFile file
    | none => .ok .empty
  let creds ← match cli.dbUsersList with
    | some list => creds.extendCommaList list
    | none => .ok creds
  let creds ← creds.extendPairs cli.dbUsers
  .ok (creds.setFallback cli.dbPassword)

/-! ### What a configuration says -/

/-- The items of a configuration in their order: those of the file, of the list, and of the command
line. -/
def CredentialSources.items (cli : CredentialSources) : List (List Char) :=
  (match cli.dbUsersFile with
    | some (.ok text) => textLines text
    | _ => []) ++
  (cli.dbUsersList.map commaItems).getD [] ++ cli.dbUsers

/-- The first item that is wrong. -/
def firstError (items : List (List Char)) : Option CredentialError :=
  items.findSome? fun item =>
    match Item.parse item with
    | .error e => some e
    | .ok _ => none

/-- What is wrong with a configuration: the file cannot be read, or an item is wrong. -/
def CredentialSources.problem (cli : CredentialSources) : Option CredentialError :=
  match cli.dbUsersFile with
  | some (.error message) => some (.unreadable message)
  | _ => firstError cli.items

/-- The password an item gives to a user. -/
def givenTo (user item : List Char) : Option (List Char) :=
  match Item.parse item with
  | .ok (some (name, password)) => if userKey name = userKey user then some password else none
  | _ => none

/-- The last password that is given to a user. -/
def lastPassword (user : List Char) (items : List (List Char)) : Option (List Char) :=
  items.reverse.findSome? (givenTo user)

/-! ### One user -/

namespace Credentials

variable (creds : Credentials)

/-- The passwords of other users are found without those of one user. -/
lemma lookup_filter {key other : List Char} (h : other ≠ key)
    (users : List (List Char × List Char)) :
    (users.filter (·.1 ≠ key)).lookup other = users.lookup other := by
  induction users with
  | nil => rfl
  | cons entry users ih =>
    obtain ⟨name, password⟩ := entry
    rw [List.filter_cons]
    split_ifs with hname
    · rw [List.lookup_cons, List.lookup_cons, ih]
    · have heq : name = key := by simpa using hname
      rw [ih, List.lookup_cons, heq, beq_false_of_ne h]

/-- **Only the password of one user changes**, whatever the letter case of its name and the white
space around it. -/
theorem passwordFor_insert (user password other : List Char) :
    (creds.insert user password).passwordFor other =
      if userKey user = userKey other then some password else creds.passwordFor other := by
  rw [passwordFor, insert]
  by_cases h : userKey user = userKey other
  · rw [if_pos h, ← h, List.lookup_cons_self]
    rfl
  · rw [if_neg h, List.lookup_cons, beq_false_of_ne (Ne.symm h), passwordFor]
    dsimp only
    rw [lookup_filter (Ne.symm h)]

@[simp]
lemma passwordFor_empty (user : List Char) : empty.passwordFor user = none := rfl

/-- What is read from some items, and then from others. -/
lemma extendPairs_append (creds : Credentials) (items items' : List (List Char)) :
    creds.extendPairs (items ++ items') =
      creds.extendPairs items >>= fun creds => creds.extendPairs items' := by
  induction items generalizing creds with
  | nil => rfl
  | cons item items ih =>
    rw [List.cons_append, extendPairs, extendPairs]
    cases Item.parse item with
    | error e => rfl
    | ok said =>
      cases said with
      | none => exact ih creds
      | some pair => exact ih (creds.insert pair.1 pair.2)

/-- No item changes the password for all others. -/
lemma fallback_extendPairs {creds creds' : Credentials} {items : List (List Char)}
    (h : creds.extendPairs items = .ok creds') : creds'.fallback = creds.fallback := by
  induction items generalizing creds with
  | nil => exact congrArg fallback (Except.ok.inj h).symm
  | cons item items ih =>
    rw [extendPairs] at h
    cases hparse : Item.parse item with
    | error e =>
      rw [hparse] at h
      cases h
    | ok said =>
      rw [hparse] at h
      cases said with
      | none => exact ih h
      | some pair => exact @ih (creds.insert pair.1 pair.2) h

/-- **The items are read one after the other**: the first that is wrong is reported, and otherwise
the last password that is given to a user is its password. -/
theorem extendPairs_eq (items : List (List Char)) :
    match firstError items with
    | some e => creds.extendPairs items = .error e
    | none => ∃ creds', creds.extendPairs items = .ok creds' ∧
        ∀ user, creds'.passwordFor user = (lastPassword user items).or (creds.passwordFor user) := by
  induction items generalizing creds with
  | nil => exact ⟨creds, rfl, fun _ => rfl⟩
  | cons item items ih =>
    rw [firstError, List.findSome?_cons, extendPairs]
    cases hparse : Item.parse item with
    | error e => rfl
    | ok said =>
      have hlast : ∀ user, lastPassword user (item :: items) =
          (lastPassword user items).or (givenTo user item) := by
        intro user
        rw [lastPassword, List.reverse_cons, List.findSome?_append, List.findSome?_singleton]
        rfl
      cases said with
      | none =>
        have hgiven : ∀ user, givenTo user item = none := fun user => by rw [givenTo, hparse]
        have ih := ih creds
        dsimp only
        rw [firstError] at ih
        split at ih
        next e he =>
          rw [he]
          exact ih
        next he =>
          obtain ⟨creds', hcreds, hpassword⟩ := ih
          rw [he]
          refine ⟨creds', hcreds, fun user => ?_⟩
          rw [hpassword, hlast, hgiven, Option.or_none]
      | some pair =>
        obtain ⟨name, password⟩ := pair
        have hgiven : ∀ user, givenTo user item =
            if userKey name = userKey user then some password else none :=
          fun user => by rw [givenTo, hparse]
        have ih := ih (creds.insert name password)
        dsimp only
        rw [firstError] at ih
        split at ih
        next e he =>
          rw [he]
          exact ih
        next he =>
          obtain ⟨creds', hcreds, hpassword⟩ := ih
          rw [he]
          refine ⟨creds', hcreds, fun user => ?_⟩
          rw [hpassword, hlast, hgiven, passwordFor_insert, Option.or_assoc]
          split_ifs
          · rfl
          · rfl

end Credentials

/-- A configuration whose file can be read is read item by item. -/
lemma buildCredentials_items (cli : CredentialSources)
    (hfile : ∀ message, cli.dbUsersFile ≠ some (.error message)) :
    buildCredentials cli = Credentials.empty.extendPairs cli.items >>= fun creds =>
      .ok (creds.setFallback cli.dbPassword) := by
  obtain ⟨file, list, users, password⟩ := cli
  rw [CredentialSources.items, Credentials.extendPairs_append, Credentials.extendPairs_append,
    bind_assoc]
  rcases file with - | message | text
  · cases list <;> rfl
  · exact absurd rfl (hfile message)
  · dsimp only [buildCredentials, Credentials.extendFile]
    cases Credentials.empty.extendPairs (textLines text) with
    | error e => rfl
    | ok creds => cases list <;> rfl

/-- **Which password a user has, and which configurations are refused.** The file, the list and the
command line are read in this order: the first item that is wrong is reported, and otherwise the
last password that is given to a user is its password, and a password for all others is the one of
the users that are given none. -/
theorem buildCredentials_eq (cli : CredentialSources) :
    match cli.problem with
    | some e => buildCredentials cli = .error e
    | none => ∃ creds, buildCredentials cli = .ok creds ∧ ∀ user, creds.passwordFor user =
        (lastPassword user cli.items).or (cli.dbPassword.filter fun p => !p.isEmpty) := by
  by_cases hfile : ∀ message, cli.dbUsersFile ≠ some (.error message)
  · have hproblem : cli.problem = firstError cli.items := by
      rw [CredentialSources.problem]
      split
      next message hmessage => exact absurd hmessage (hfile message)
      next => rfl
    have hitems := Credentials.empty.extendPairs_eq cli.items
    rw [hproblem, buildCredentials_items cli hfile]
    split at hitems
    next => rw [hitems]; rfl
    next =>
      obtain ⟨creds, hcreds, hpassword⟩ := hitems
      refine ⟨creds.setFallback cli.dbPassword, by rw [hcreds]; rfl, fun user => ?_⟩
      have hnone : creds.fallback = none := Credentials.fallback_extendPairs hcreds
      have hlookup : creds.passwordFor user = creds.users.lookup (userKey user) := by
        rw [Credentials.passwordFor, hnone, Option.or_none]
      change (creds.users.lookup (userKey user)).or _ = _
      rw [← hlookup, hpassword, Credentials.passwordFor_empty, Option.or_none]
      rfl
  · obtain ⟨message, hmessage⟩ := not_forall.1 hfile
    rw [CredentialSources.problem, not_not.1 hmessage, buildCredentials, not_not.1 hmessage]
    rfl

end DbSaci.Server
