import DbSaci.Library.Json
import DbSaci.Library.Utf8
import DbSaci.Server.HealthAuth
import DbSaci.Server.Registry
import DbSaci.Translate.FetchTies

set_option relaxedAutoImplicit false
set_option autoImplicit false

/-!
# The health endpoint

A small HTTP server beside the listener. It tells whether the process and its backend are up, lists
the sessions, and aborts one.

## Main definitions

* `jsonEscape`, `renderSessionsJson` — the list of sessions.
* `serveHealth` — what a request does, and its response.
* `Served` — the sessions, with requests between their steps.
* `readResponse` — what a client makes of a response.

## Main results

* `served_run` — with requests, the sessions take the steps they can take without.
* `served_unknown` — who does not know the token learns nothing of the sessions and aborts none.
* `listed_live` — who knows the token is told the sessions, and only them.
-/

namespace DbSaci.Server.Health

open Text Sessions
open Translate.Ddl (stripPrefix)
open Translate.FetchTies (parseU64)

/-! ### The list of sessions -/

/-- What stands for a character in a string. -/
def jsonEscapeChar (c : Char) : List Char :=
  if c = '"' then ['\\', '"']
  else if c = '\\' then ['\\', '\\']
  else if c = '\n' then ['\\', 'n']
  else if c = '\r' then ['\\', 'r']
  else if c = '\t' then ['\\', 't']
  else if c.toNat < 0x20 then '\\' :: 'u' :: JsonText.unitDigits c.toNat
  else [c]

/-- `json_escape`. -/
def jsonEscape (s : List Char) : List Char := s.flatMap jsonEscapeChar

/-- The sessions of the map, in the order of their numbers. -/
def entries (r : Registry) : List (ℕ × SessionMeta) :=
  (List.range r.nextSessionId).filterMap fun id => (r.sessions id).map fun info => (id, info)

/-- One session of the list. -/
def renderSession (age : ℕ → ℕ) (e : ℕ × SessionMeta) : List Char :=
  "\x7b\"id\":".toList ++ Nat.toDigits 10 e.1 ++
    ",\"addr\":\"".toList ++ jsonEscape e.2.addr.toList ++
    "\",\"user\":\"".toList ++ jsonEscape (e.2.user.getD "").toList ++
    "\",\"age_seconds\":".toList ++ Nat.toDigits 10 (age e.1) ++ "\x7d".toList

/-- `render_sessions_json`. -/
def renderSessionsJson (age : ℕ → ℕ) (r : Registry) : List Char :=
  "[".toList ++ List.intercalate [','] ((entries r).map (renderSession age)) ++ "]".toList

/-- The counters on `/metrics`. -/
structure Counters where
  activeSessions : ℕ
  sessionsTotal : ℕ
  statementsTotal : ℕ
  backendErrorsTotal : ℕ
  deriving DecidableEq, Repr

/-- `render_metrics`. -/
def renderMetrics (c : Counters) : List Char :=
  "# HELP dbsaci_sessions_active Currently connected Oracle sessions.\n".toList ++
    "# TYPE dbsaci_sessions_active gauge\n".toList ++
    "dbsaci_sessions_active ".toList ++ Nat.toDigits 10 c.activeSessions ++ "\n".toList ++
    "# HELP dbsaci_sessions_total Sessions accepted since start.\n".toList ++
    "# TYPE dbsaci_sessions_total counter\n".toList ++
    "dbsaci_sessions_total ".toList ++ Nat.toDigits 10 c.sessionsTotal ++ "\n".toList ++
    "# HELP dbsaci_statements_total Execute/Fetch/DML calls served.\n".toList ++
    "# TYPE dbsaci_statements_total counter\n".toList ++
    "dbsaci_statements_total ".toList ++ Nat.toDigits 10 c.statementsTotal ++ "\n".toList ++
    "# HELP dbsaci_backend_errors_total ".toList ++
    "PostgreSQL errors mapped and returned to clients.\n".toList ++
    "# TYPE dbsaci_backend_errors_total counter\n".toList ++
    "dbsaci_backend_errors_total ".toList ++ Nat.toDigits 10 c.backendErrorsTotal ++ "\n".toList

/-! ### A request -/

/-- The lines of a text, with the one that has been started. -/
def linesFrom (line : List Char) : List Char → List (List Char)
  | [] => if line = [] then [] else [line]
  | c :: s =>
    if c = '\n' then (if line.getLast? = some '\r' then line.dropLast else line) :: linesFrom [] s
    else linesFrom (line ++ [c]) s

/-- `str::lines`. -/
def lines (s : List Char) : List (List Char) := linesFrom [] s

/-- `split_whitespace`. -/
def words (s : List Char) : List (List Char) := (s.splitOnP isSpace).filter fun w => w ≠ []

/-- Whether a line has one of the two fields for the token. -/
def isAuthHeader (line : List Char) : Bool :=
  "authorization:".toList.isPrefixOf (line.map Char.toLower) ||
    "x-dbsaci-token:".toList.isPrefixOf (line.map Char.toLower)

/-- What a request is answered with. -/
structure Response where
  status : List Char
  body : List Char
  deriving DecidableEq, Repr

/-- What the endpoint sees besides the sessions: whether a connection to the backend can be opened,
the counters, and how old each session is. -/
structure Environment where
  reachable : Bool
  counters : Counters
  age : ℕ → ℕ

/-- `sessions_kill`. -/
def sessionsKill (r : Registry) (id : ℕ) : Registry × Bool :=
  match r.sessions id with
  | none => (r, false)
  | some _ =>
    match r.tasks id with
    | none => (r, true)
    | some task => (r.setTask id ⟨task.phase, true⟩, true)

/-- The response to a request that has nothing to do with the sessions. -/
def probe (env : Environment) (path : List Char) : Response :=
  if "/readyz".toList.isPrefixOf path then
    if env.reachable then ⟨"200 OK".toList, "ready".toList⟩
    else ⟨"503 Service Unavailable".toList, "backend unreachable".toList⟩
  else if "/healthz".toList.isPrefixOf path then ⟨"200 OK".toList, "ok".toList⟩
  else if "/metrics".toList.isPrefixOf path then ⟨"200 OK".toList, renderMetrics env.counters⟩
  else ⟨"404 Not Found".toList, "not found".toList⟩

/-- The response to a request for a path, and what it does. -/
def route (env : Environment) (r : Registry) (sessionsOk : Bool) (method path : List Char) :
    Registry × Response :=
  if path = "/sessions".toList ∨ path = "/sessions/".toList then
    if sessionsOk then (r, ⟨"200 OK".toList, renderSessionsJson env.age r⟩)
    else
      (r, ⟨"401 Unauthorized".toList,
        "session list requires Authorization: Bearer <token>".toList⟩)
  else
    match stripPrefix "/sessions/".toList path with
    | some rest =>
      let idStr := rest.takeWhile fun c => c ≠ '/' ∧ c ≠ '?'
      match parseU64 idStr with
      | some id =>
        if method = "DELETE".toList ∨ method = "POST".toList then
          if sessionsOk = false then
            (r, ⟨"401 Unauthorized".toList,
              "session kill requires Authorization: Bearer <token>".toList⟩)
          else
            match sessionsKill r id with
            | (s, true) => (s, ⟨"200 OK".toList, "killed session ".toList ++ Nat.toDigits 10 id⟩)
            | (s, false) =>
              (s, ⟨"404 Not Found".toList, "no session ".toList ++ Nat.toDigits 10 id⟩)
        else
          (r, ⟨"405 Method Not Allowed".toList,
            "use DELETE /sessions/<id> to kill a session".toList⟩)
      | none => (r, ⟨"400 Bad Request".toList, "session id must be a number".toList⟩)
    | none => (r, probe env path)

/-- The text that a request is read as: the first bytes that have arrived. -/
def requestHead (arrived : List UInt8) : List Char := utf8Lossy (arrived.take 1024)

/-- `serve_health`, for one connection. -/
def serveHealth (auth : HealthAuth) (env : Environment) (r : Registry) (arrived : List UInt8) :
    Registry × Response :=
  let head := requestHead arrived
  let requestLine := (lines head).head?.getD []
  let authHeader := (lines head).find? isAuthHeader
  let sessionsOk := auth.authorizeSessions authHeader
  let parts := words requestLine
  let method := (parts[0]?).getD "GET".toList
  let path := (parts[1]?).getD "/".toList
  route env r sessionsOk method path

/-- The type of a body, by how it starts. -/
def contentType (body : List Char) : List Char :=
  if body.head? = some '[' ∨ body.head? = some '\x7b' then "application/json".toList
  else "text/plain".toList

/-- The bytes of a response. -/
def Response.bytes (x : Response) : List UInt8 :=
  utf8Encode ("HTTP/1.1 ".toList ++ x.status ++ "\r\ncontent-type: ".toList ++ contentType x.body ++
    "\r\ncontent-length: ".toList ++ Nat.toDigits 10 (utf8Encode x.body).length ++
    "\r\nconnection: close\r\n\r\n".toList ++ x.body)

/-! ### Requests between the steps of the sessions -/

/-- What happens: a step of the sessions, or a request and its response. -/
inductive Exchange
  | session (e : Sessions.Event)
  | request (env : Environment) (arrived : List UInt8) (response : Response)

/-- The step of the sessions. -/
def Exchange.event : Exchange → Option Sessions.Event
  | .session e => some e
  | .request _ _ _ => none

/-- The sessions, with requests between their steps. Only a request aborts a session. -/
inductive Served (auth : HealthAuth) : Registry → Exchange → Registry → Prop
  | session {r s : Registry} {e : Sessions.Event} (h : Step r e s) (hother : ∀ id, e ≠ .kill id) :
    Served auth r (.session e) s
  | request {r : Registry} (env : Environment) (arrived : List UInt8) :
    Served auth r (.request env arrived (serveHealth auth env r arrived).2)
      (serveHealth auth env r arrived).1

/-- Each step of the sessions is in order. -/
def InOrder (r : Registry) : Exchange → Prop
  | .session e => Sessions.InOrder r e
  | .request _ _ _ => True

/-- Aborting is a step of the sessions, or nothing is done. -/
lemma sessionsKill_step (r : Registry) (id : ℕ) :
    (sessionsKill r id).1 = r ∨ Step r (.kill id) (sessionsKill r id).1 := by
  rw [sessionsKill]
  cases hsession : r.sessions id with
  | none => exact .inl rfl
  | some info =>
    cases htask : r.tasks id with
    | none => exact .inl rfl
    | some task => exact .inr (.kill (by rw [hsession]; rfl) htask)

/-- What a request does to the sessions. -/
lemma route_step (env : Environment) (r : Registry) (ok : Bool) (method path : List Char) :
    (route env r ok method path).1 = r ∨
      ∃ id, Step r (.kill id) (route env r ok method path).1 := by
  rw [route]
  split
  · cases ok <;> exact .inl rfl
  · split
    · dsimp only
      split
      · rename_i id _
        split
        · split
          · exact .inl rfl
          · rcases sessionsKill_step r id with hsame | hstep
            · left
              split <;> rename_i heq <;> rw [heq] at hsame <;> exact hsame
            · refine .inr ⟨id, ?_⟩
              split <;> rename_i heq <;> rw [heq] at hstep <;> exact hstep
        · exact .inl rfl
      · exact .inl rfl
    · exact .inl rfl

/-- A request does nothing to the sessions, or aborts one. -/
lemma serveHealth_step (auth : HealthAuth) (env : Environment) (r : Registry)
    (arrived : List UInt8) : (serveHealth auth env r arrived).1 = r ∨
      ∃ id, Step r (.kill id) (serveHealth auth env r arrived).1 := route_step _ _ _ _ _

/-- **With requests, the sessions take the steps they can take without.** -/
theorem served_run {auth : HealthAuth} {r s : Registry} {xs : List Exchange}
    (hrun : Run (Served auth) r xs s) : ∃ es, Run Step r es s := by
  induction hrun with
  | nil r => exact ⟨[], .nil r⟩
  | cons first rest ih =>
    obtain ⟨es, hes⟩ := ih
    cases first with
    | session h hother => exact ⟨_, .cons h hes⟩
    | request env arrived =>
      rename_i r _ _
      rcases serveHealth_step auth env r arrived with hsame | ⟨id, hstep⟩
      · rw [hsame] at hes
        exact ⟨es, hes⟩
      · exact ⟨_, .cons hstep hes⟩

/-! ### Who does not know the token -/

/-- Nothing is known of the age of a session. -/
def Environment.ageless (env : Environment) : Environment := { env with age := fun _ => 0 }

/-- Without the permission, a request is answered as if there were no sessions. -/
lemma route_refused (env : Environment) (r : Registry) (method path : List Char) :
    route env r false method path = (r, (route env.ageless .start false method path).2) := by
  rw [route, route]
  by_cases hlist : path = "/sessions".toList ∨ path = "/sessions/".toList
  · rw [if_pos hlist, if_pos hlist]
    rfl
  · rw [if_neg hlist, if_neg hlist]
    cases stripPrefix "/sessions/".toList path with
    | some rest =>
      dsimp only
      cases parseU64 (rest.takeWhile fun c => c ≠ '/' ∧ c ≠ '?') with
      | some id =>
        dsimp only
        by_cases hmethod : method = "DELETE".toList ∨ method = "POST".toList
        · rw [if_pos hmethod, if_pos hmethod]
          rfl
        · rw [if_neg hmethod, if_neg hmethod]
      | none => rfl
    | none => rfl

/-- A line is part of the text. -/
lemma infix_of_mem_linesFrom {line l s : List Char} (h : l ∈ linesFrom line s) :
    l <:+: line ++ s := by
  induction s generalizing line with
  | nil =>
    rw [linesFrom] at h
    split at h
    · cases h
    · rw [List.mem_singleton] at h
      rw [h, List.append_nil]
  | cons c s ih =>
    rw [linesFrom] at h
    split at h
    · rcases List.mem_cons.1 h with rfl | hrest
      · refine List.IsInfix.trans ?_ (List.prefix_append line _).isInfix
        split
        · exact (List.dropLast_prefix line).isInfix
        · exact List.infix_refl _
      · exact (ih hrest).trans ((List.suffix_cons c s).trans (List.suffix_append _ _)).isInfix
    · have hinfix := ih h
      rwa [List.append_assoc, List.singleton_append] at hinfix

/-- Without the token, a request may not list or abort sessions. -/
lemma serveHealth_unknown {auth : HealthAuth} (hrestricted : auth.Restricted) {arrived : List UInt8}
    (hunknown : ¬ auth.Knows (requestHead arrived)) (env : Environment) (r : Registry) :
    serveHealth auth env r arrived =
      (r, (serveHealth auth env.ageless .start arrived).2) := by
  have hrefused : auth.authorizeSessions ((lines (requestHead arrived)).find? isAuthHeader) =
      false := by
    rw [← Bool.not_eq_true]
    intro hok
    obtain ⟨line, hline, token, htoken, hinfix⟩ := HealthAuth.knows_of_authorizeSessions hrestricted
      hok
    exact hunknown ⟨token, htoken,
      hinfix.trans (infix_of_mem_linesFrom (List.mem_of_find?_eq_some hline))⟩
  rw [serveHealth, serveHealth, hrefused]
  exact route_refused _ _ _ _

/-- A line of a response and what stands behind its end. -/
def readLine : List UInt8 → Option (List UInt8 × List UInt8)
  | [] => none
  | 13 :: 10 :: s => some ([], s)
  | b :: s => (readLine s).map fun (line, s) => (b :: line, s)

/-- The lines up to an empty one, and what stands behind it. -/
def readHead : ℕ → List UInt8 → Option (List (List UInt8) × List UInt8)
  | 0, _ => none
  | n + 1, s =>
    (readLine s).bind fun (line, s) =>
      if line = [] then some ([], s)
      else (readHead n s).map fun (lines, s) => (line :: lines, s)

/-- Bytes as characters, one for each. -/
def latin1 (s : List UInt8) : List Char := s.map fun b => Char.ofNat b.toNat

/-- The value of a field. -/
def fieldValue (name : List Char) (fields : List (List Char)) : Option (List Char) :=
  fields.findSome? (stripPrefix name)

/-- What a client makes of a response: the status, and as many bytes behind the head as the head
says. -/
def readResponse (s : List UInt8) : Option Response :=
  (readHead s.length s).bind fun (lines, rest) =>
    match lines.map latin1 with
    | [] => none
    | first :: fields =>
      (stripPrefix "HTTP/1.1 ".toList first).bind fun status =>
        (fieldValue "content-length: ".toList fields).bind fun digits =>
          let length := Nat.ofDigitChars 10 digits 0
          if length ≤ rest.length then
            (utf8Decode (rest.take length)).map fun body => ⟨status, body⟩
          else none

/-- A text of the head: neither the end of a line nor anything outside ASCII. -/
def Plain (s : List Char) : Prop := ∀ c ∈ s, c.toNat < 0x80 ∧ c ≠ '\r'

instance (s : List Char) : Decidable (Plain s) := inferInstanceAs (Decidable (∀ c ∈ s, _))

lemma Plain.append {s t : List Char} (hs : Plain s) (ht : Plain t) : Plain (s ++ t) :=
  List.forall_mem_append.2 ⟨hs, ht⟩

lemma plain_digits (n : ℕ) : Plain (Nat.toDigits 10 n) := by
  intro c hc
  have hdigit : c.isDigit = true := Nat.isDigit_of_mem_toDigits (by omega) (by omega) hc
  rw [Char.isDigit, Bool.and_eq_true, decide_eq_true_eq, decide_eq_true_eq] at hdigit
  have hlow : 48 ≤ c.toNat := hdigit.1
  have hhigh : c.toNat ≤ 57 := hdigit.2
  refine ⟨by omega, ?_⟩
  rintro rfl
  exact absurd hlow (by decide)

section Heads

variable {s : List Char}

/-- The bytes of a text of the head. -/
lemma utf8Encode_plain (h : Plain s) : utf8Encode s = s.map fun c => UInt8.ofNat c.toNat := by
  induction s with
  | nil => rfl
  | cons c s ih =>
    obtain ⟨hc, hs⟩ := List.forall_mem_cons.1 h
    rw [utf8Encode_cons, utf8EncodeChar_ascii hc.1, ih hs]
    rfl

/-- A text of the head is read from its bytes. -/
lemma latin1_utf8Encode (h : Plain s) : latin1 (utf8Encode s) = s := by
  rw [utf8Encode_plain h, latin1, List.map_map]
  refine (List.map_congr_left fun c hc => ?_).trans (List.map_id s)
  have hlt : c.toNat < 256 := (h c hc).1.trans (by omega)
  rw [Function.comp_apply, UInt8.toNat_ofNat_of_lt' hlt, Char.ofNat_toNat, id]

/-- No byte of a text of the head is the end of a line. -/
lemma not_mem_utf8Encode (h : Plain s) : (13 : UInt8) ∉ utf8Encode s := by
  rw [utf8Encode_plain h, List.mem_map]
  rintro ⟨c, hc, heq⟩
  obtain ⟨hlt, hne⟩ := h c hc
  have hnat : c.toNat = 13 := by
    have hbyte := congrArg UInt8.toNat heq
    rwa [UInt8.toNat_ofNat_of_lt' (hlt.trans (by decide))] at hbyte
  exact hne (Char.toNat_inj.1 hnat)

end Heads

/-- A line is read up to its end. -/
lemma readLine_append {line : List UInt8} (h : 13 ∉ line) (rest : List UInt8) :
    readLine (line ++ 13 :: 10 :: rest) = some (line, rest) := by
  induction line with
  | nil => rfl
  | cons b line ih =>
    rw [List.mem_cons, not_or] at h
    rw [List.cons_append, readLine.eq_3 _ _ fun _ heq _ => h.1 heq.symm, ih h.2]
    rfl

/-- The head is read line by line. -/
lemma readHead_lines {texts : List (List Char)} (h : ∀ s ∈ texts, s ≠ [] ∧ Plain s) {n : ℕ}
    (hn : texts.length < n) (rest : List UInt8) :
    readHead n (texts.flatMap (fun s => utf8Encode s ++ [13, 10]) ++ 13 :: 10 :: rest) =
      some (texts.map utf8Encode, rest) := by
  induction texts generalizing n with
  | nil =>
    obtain ⟨n, rfl⟩ := Nat.exists_eq_add_one.2 hn
    rfl
  | cons s texts ih =>
    obtain ⟨⟨hne, hplain⟩, htexts⟩ := List.forall_mem_cons.1 h
    rw [List.length_cons] at hn
    obtain ⟨n, rfl⟩ : ∃ k, n = k + 1 := ⟨n - 1, by omega⟩
    have hline : utf8Encode s ≠ [] := by
      intro hnil
      have hlength := length_le_length_utf8Encode s
      rw [hnil] at hlength
      exact hne (List.length_eq_zero_iff.1 (Nat.le_zero.1 hlength))
    rw [List.flatMap_cons, List.append_assoc, List.append_assoc, readHead]
    refine (congrArg (fun x => Option.bind x _)
      (readLine_append (not_mem_utf8Encode hplain) _)).trans ?_
    rw [Option.bind_some]
    dsimp only
    rw [if_neg hline]
    exact congrArg (Option.map _) (ih htexts (by omega))

/-- The lines of the head of a response. -/
def Response.headLines (x : Response) : List (List Char) :=
  ["HTTP/1.1 ".toList ++ x.status, "content-type: ".toList ++ contentType x.body,
    "content-length: ".toList ++ Nat.toDigits 10 (utf8Encode x.body).length,
    "connection: close".toList]

/-- The bytes of a response are its lines and its body. -/
lemma Response.bytes_eq (x : Response) : x.bytes =
    x.headLines.flatMap (fun s => utf8Encode s ++ [13, 10]) ++ 13 :: 10 :: utf8Encode x.body := by
  have hend : utf8Encode "\r\n".toList = [13, 10] := by decide
  have htype : "\r\ncontent-type: ".toList = "\r\n".toList ++ "content-type: ".toList := rfl
  have hlength : "\r\ncontent-length: ".toList = "\r\n".toList ++ "content-length: ".toList := rfl
  have hclose : "\r\nconnection: close\r\n\r\n".toList = "\r\n".toList ++
    ("connection: close".toList ++ ("\r\n".toList ++ "\r\n".toList)) := rfl
  rw [bytes, headLines, htype, hlength, hclose]
  simp only [utf8Encode_append, hend, List.flatMap_cons, List.flatMap_nil, List.append_assoc,
    List.cons_append, List.nil_append]

/-- **A client reads the response that has been sent.** -/
theorem readResponse_bytes (x : Response) (hstatus : Plain x.status) :
    readResponse x.bytes = some x := by
  have htype : Plain ("content-type: ".toList ++ contentType x.body) := by
    rw [contentType]
    split <;> decide
  have hlength : Plain ("content-length: ".toList ++
      Nat.toDigits 10 (utf8Encode x.body).length) := Plain.append (by decide) (plain_digits _)
  have hfirst : Plain ("HTTP/1.1 ".toList ++ x.status) := Plain.append (by decide) hstatus
  have hconnection : Plain "connection: close".toList := by decide
  have htexts : ∀ s ∈ x.headLines, s ≠ [] ∧ Plain s :=
    List.forall_mem_cons.2 ⟨⟨List.cons_ne_nil _ _, hfirst⟩, List.forall_mem_cons.2
      ⟨⟨List.cons_ne_nil _ _, htype⟩, List.forall_mem_cons.2 ⟨⟨List.cons_ne_nil _ _, hlength⟩,
        List.forall_mem_singleton.2 ⟨List.cons_ne_nil _ _, hconnection⟩⟩⟩⟩
  have hlines : (x.headLines.map utf8Encode).map latin1 = x.headLines := by
    rw [List.map_map]
    exact (List.map_congr_left fun s hs => latin1_utf8Encode (htexts s hs).2).trans (List.map_id _)
  have hhead := readHead_lines htexts (n := x.bytes.length)
    (by rw [x.bytes_eq]; simp [Response.headLines]; omega) (utf8Encode x.body)
  rw [← x.bytes_eq] at hhead
  rw [readResponse, hhead, Option.bind_some]
  dsimp only
  rw [hlines]
  have hfield : fieldValue "content-length: ".toList ["content-type: ".toList ++
      contentType x.body, "content-length: ".toList ++ Nat.toDigits 10 (utf8Encode x.body).length,
      "connection: close".toList] = some (Nat.toDigits 10 (utf8Encode x.body).length) := rfl
  have hstripped : stripPrefix "HTTP/1.1 ".toList ("HTTP/1.1 ".toList ++ x.status) =
      some x.status := rfl
  rw [Response.headLines]
  dsimp only
  rw [hstripped, hfield, Option.bind_some, Option.bind_some, Nat.ofDigitChars_ten_toDigits,
    if_pos (Nat.le_refl _), List.take_length, utf8Decode_encode]
  rfl

/-! ### The list, as a client reads it -/

open JsonText (Spelled Reads readValue)

/-- A session, as JSON. -/
def sessionValue (age : ℕ → ℕ) (e : ℕ × SessionMeta) : JsonText.Value :=
  .object [("id".toList, .number e.1), ("addr".toList, .string e.2.addr.toList),
    ("user".toList, .string (e.2.user.getD "").toList), ("age_seconds".toList, .number (age e.1))]

/-- Whatever a character is, it is read from what stands for it. -/
lemma spelled_jsonEscapeChar (c : Char) : Spelled (jsonEscapeChar c) c := by
  rw [jsonEscapeChar]
  split_ifs with hquote hslash hline hreturn htab hcontrol
  · subst hquote
    exact JsonText.spelled_escape fun rest => rfl
  · subst hslash
    exact JsonText.spelled_escape fun rest => rfl
  · subst hline
    exact JsonText.spelled_escape fun rest => rfl
  · subst hreturn
    exact JsonText.spelled_escape fun rest => rfl
  · subst htab
    exact JsonText.spelled_escape fun rest => rfl
  · exact JsonText.spelled_unit (hcontrol.trans (by omega))
  · exact JsonText.spelled_self hquote hslash (Nat.not_lt.1 hcontrol)

/-- The name of a member is written as it is. -/
lemma reads_named {depth : ℕ} (name : List Char) {text : List Char} {v : JsonText.Value}
    (hname : ∀ c ∈ name, c ≠ '"' ∧ c ≠ '\\' ∧ 0x20 ≤ c.toNat) (h : Reads (readValue depth) text v) :
    Reads (JsonText.readMember (readValue depth)) ('"' :: (name ++ '"' :: ':' :: text))
      (name, v) := by
  have hself : ∀ c ∈ name, Spelled [c] c := fun c hc =>
    JsonText.spelled_self (hname c hc).1 (hname c hc).2.1 (hname c hc).2.2
  have hmember := JsonText.reads_member hself h
  rwa [List.flatMap_singleton' name] at hmember

/-- A session is read from its text. -/
lemma reads_renderSession (age : ℕ → ℕ) (depth : ℕ) (e : ℕ × SessionMeta) :
    Reads (readValue (depth + 2)) (renderSession age e) (sessionValue age e) := by
  have hstring : ∀ s : List Char,
      Reads (readValue (depth + 1)) ('"' :: (jsonEscape s ++ ['"'])) (.string s) := fun s =>
    JsonText.reads_string depth fun c _ => spelled_jsonEscapeChar c
  have hobject := JsonText.reads_object <|
    .cons (reads_named "id".toList (by decide) (JsonText.reads_number depth e.1)) <|
    .cons (reads_named "addr".toList (by decide) (hstring e.2.addr.toList)) <|
    .cons (reads_named "user".toList (by decide) (hstring (e.2.user.getD "").toList)) <|
    .cons (reads_named "age_seconds".toList (by decide)
      (JsonText.reads_number depth (age e.1))) .nil
  have htext : renderSession age e = '\x7b' :: (List.intercalate [',']
      ['"' :: ("id".toList ++ '"' :: ':' :: Nat.toDigits 10 e.1),
        '"' :: ("addr".toList ++ '"' :: ':' :: '"' :: (jsonEscape e.2.addr.toList ++ ['"'])),
        '"' :: ("user".toList ++ '"' :: ':' :: '"' ::
          (jsonEscape (e.2.user.getD "").toList ++ ['"'])),
        '"' :: ("age_seconds".toList ++ '"' :: ':' :: Nat.toDigits 10 (age e.1))] ++
          ['\x7d']) := by
    have hid : "\x7b\"id\":".toList = '\x7b' :: '"' :: ("id".toList ++ ['"', ':']) := rfl
    have haddr : ",\"addr\":\"".toList = ',' :: '"' :: ("addr".toList ++ ['"', ':', '"']) := rfl
    have huser : "\",\"user\":\"".toList =
      '"' :: ',' :: '"' :: ("user".toList ++ ['"', ':', '"']) := rfl
    have hage : "\",\"age_seconds\":".toList =
      '"' :: ',' :: '"' :: ("age_seconds".toList ++ ['"', ':']) := rfl
    have hclose : "\x7d".toList = ['\x7d'] := rfl
    unfold renderSession
    simp only [hid, haddr, huser, hage, hclose, List.intercalate_cons_cons,
      List.intercalate_singleton, List.append_assoc, List.cons_append, List.nil_append]
  rw [htext]
  exact hobject

/-- **The list of sessions is read as the sessions**, whatever their addresses and names are. -/
theorem parse_renderSessionsJson (age : ℕ → ℕ) (r : Registry) :
    JsonText.parse (renderSessionsJson age r) =
      some (.array ((entries r).map (sessionValue age))) := by
  apply JsonText.parse_reads
  have hall : ∀ depth (es : List (ℕ × SessionMeta)), List.Forall₂ (Reads (readValue (depth + 2)))
      (es.map (renderSession age)) (es.map (sessionValue age)) := by
    intro depth es
    induction es with
    | nil => exact .nil
    | cons e es ih => exact .cons (reads_renderSession age depth e) ih
  have htext : renderSessionsJson age r = '[' ::
      (List.intercalate [','] ((entries r).map (renderSession age)) ++ [']']) := rfl
  rw [htext, List.length_cons, List.length_append, List.length_singleton]
  cases hes : entries r with
  | nil => exact JsonText.reads_array .nil
  | cons e es =>
    obtain ⟨n, hn⟩ : ∃ n, (List.intercalate [','] ((e :: es).map (renderSession age))).length =
        n + 1 := by
      obtain ⟨s, hs⟩ : ∃ s, List.intercalate [','] ((e :: es).map (renderSession age)) =
          renderSession age e ++ s := by
        cases es with
        | nil => exact ⟨[], by rw [List.map_singleton, List.intercalate_singleton,
            List.append_nil]⟩
        | cons e' es => exact ⟨_, by rw [List.map_cons, List.map_cons,
            List.intercalate_cons_cons, List.append_assoc]⟩
      obtain ⟨c, t, htext, -⟩ := (reads_renderSession age 0 e).starts
      rw [hs, htext]
      exact ⟨_, rfl⟩
    rw [hn]
    exact JsonText.reads_array (hall n (e :: es))

/-! ### Who knows the token -/

/-- Someone who knows the token, and the fields their requests have before it. -/
structure Operator (auth : HealthAuth) where
  token : List Char
  others : List (List Char)
  knows : auth.token = some token
  trimmed : Trimmed token
  line : '\n' ∉ token
  other : ∀ l ∈ others, '\n' ∉ l ∧ isAuthHeader l = false

/-- The first line of a request. -/
def requestLine (method path : List Char) : List Char :=
  method ++ ' ' :: (path ++ ' ' :: "HTTP/1.1".toList)

/-- A request with the token. -/
def Operator.request {auth : HealthAuth} (o : Operator auth) (method path : List Char) :
    List Char :=
  requestLine method path ++ '\r' :: '\n' ::
    (o.others.flatMap (fun l => l ++ ['\r', '\n']) ++ (bearerLine o.token ++ "\r\n\r\n".toList))

lemma linesFrom_append {s : List Char} (h : '\n' ∉ s) (line t : List Char) :
    linesFrom line (s ++ t) = linesFrom (line ++ s) t := by
  induction s generalizing line with
  | nil => rw [List.nil_append, List.append_nil]
  | cons c s ih =>
    rw [List.mem_cons, not_or] at h
    rw [List.cons_append, linesFrom, if_neg (Ne.symm h.1), ih h.2, List.append_assoc,
      List.singleton_append]

/-- The first line of a text. -/
lemma lines_cons {line : List Char} (h : '\n' ∉ line) (s : List Char) :
    lines (line ++ '\r' :: '\n' :: s) = line :: lines s := by
  have hcr : '\n' ∉ line ++ ['\r'] := by
    rw [List.mem_append, not_or]
    exact ⟨h, by decide⟩
  have hsplit : line ++ '\r' :: '\n' :: s = (line ++ ['\r']) ++ '\n' :: s := by
    rw [List.append_assoc, List.singleton_append]
  rw [lines, hsplit, linesFrom_append hcr, List.nil_append, linesFrom, if_pos rfl,
    List.getLast?_concat, if_pos rfl, List.dropLast_concat, lines]

/-- The lines that some lines are written as. -/
lemma lines_flatMap {ls : List (List Char)} (h : ∀ l ∈ ls, '\n' ∉ l) (s : List Char) :
    lines (ls.flatMap (fun l => l ++ ['\r', '\n']) ++ s) = ls ++ lines s := by
  induction ls with
  | nil => rfl
  | cons l ls ih =>
    obtain ⟨hl, hls⟩ := List.forall_mem_cons.1 h
    rw [List.flatMap_cons, List.append_assoc, List.append_assoc, List.cons_append,
      List.cons_append, List.nil_append, lines_cons hl, ih hls, List.cons_append]

/-- A text between white space. -/
def Solid (s : List Char) : Prop := s ≠ [] ∧ ∀ c ∈ s, isSpace c = false

instance (s : List Char) : Decidable (Solid s) := inferInstanceAs (Decidable (_ ∧ ∀ c ∈ s, _))

/-- The words of the first line of a request. -/
lemma words_requestLine {method path : List Char} (hmethod : Solid method) (hpath : Solid path) :
    words (requestLine method path) = [method, path, "HTTP/1.1".toList] := by
  rw [words, requestLine, List.splitOnP_append_cons_of_forall_mem hmethod.2 ' ' rfl,
    List.splitOnP_append_cons_of_forall_mem hpath.2 ' ' rfl,
    List.splitOnP_eq_singleton (by decide)]
  simp [hmethod.1, hpath.1]

namespace Operator

variable {auth : HealthAuth} (o : Operator auth)

/-- The lines of a request. -/
lemma lines_request {method path : List Char} (h : '\n' ∉ requestLine method path) :
    lines (o.request method path) =
      requestLine method path :: (o.others ++ [bearerLine o.token, []]) := by
  have hbearer : '\n' ∉ bearerLine o.token := fun hmem =>
    (List.mem_append.1 hmem).elim (by decide) o.line
  have hend : bearerLine o.token ++ "\r\n\r\n".toList =
    bearerLine o.token ++ '\r' :: '\n' :: ['\r', '\n'] := rfl
  rw [request, lines_cons h, lines_flatMap fun l hl => (o.other l hl).1, hend, lines_cons hbearer]
  rfl

/-- **A request with the token is answered as one that may do what it asks for.** -/
theorem serveHealth_request {method path : List Char} (hmethod : Solid method) (hpath : Solid path)
    (hplain : isAuthHeader (requestLine method path) = false) (env : Environment) (r : Registry)
    (hfits : (utf8Encode (o.request method path)).length ≤ 1024) :
    serveHealth auth env r (utf8Encode (o.request method path)) =
      route env r true method path := by
  have hline : '\n' ∉ requestLine method path := by
    intro hmem
    rw [requestLine, List.mem_append, List.mem_cons, List.mem_append] at hmem
    rcases hmem with hmem | heq | hmem | hmem
    · cases hmethod.2 _ hmem
    · cases heq
    · cases hpath.2 _ hmem
    · revert hmem
      decide
  have hhead : requestHead (utf8Encode (o.request method path)) = o.request method path := by
    rw [requestHead, List.take_of_length_le hfits, utf8Lossy_encode]
  have hfind : (lines (o.request method path)).find? isAuthHeader = some (bearerLine o.token) := by
    have hnone : o.others.find? isAuthHeader = none := by
      rw [List.find?_eq_none]
      intro l hl
      rw [(o.other l hl).2]
      exact Bool.false_ne_true
    rw [o.lines_request hline, List.find?_cons_of_neg (by rw [hplain]; exact Bool.false_ne_true),
      List.find?_append, hnone, Option.none_or]
    rfl
  have hok := HealthAuth.authorizeSessions_of_matches o.knows (tokenMatches_bearer o.trimmed)
  rw [serveHealth, hhead, hfind, hok, o.lines_request hline, List.head?_cons, Option.getD_some,
    words_requestLine hmethod hpath]
  rfl

end Operator

/-- In a run that is in order, the map has the sessions that live. -/
lemma served_exact {auth : HealthAuth} {r : Registry} {xs : List Exchange}
    (hrun : Run (Guarded (Served auth) InOrder) .start xs r) : Orderly r := by
  refine hrun.invariant Orderly.start ?_
  rintro r x s hr ⟨hserved, horder⟩
  cases hserved with
  | session hstep => exact hr.step hstep horder
  | request env arrived =>
    rcases serveHealth_step auth env r arrived with hsame | ⟨id, hstep⟩
    · rw [hsame]
      exact hr
    · exact hr.step hstep trivial

/-- The list has the sessions of the map. -/
lemma mem_entries {r : Registry} (h : Orderly r) {id : ℕ} {info : SessionMeta} :
    (id, info) ∈ entries r ↔ r.sessions id = some info := by
  rw [entries, List.mem_filterMap]
  constructor
  · rintro ⟨id', -, hmap⟩
    obtain ⟨info', hinfo, heq⟩ := Option.map_eq_some_iff.1 hmap
    obtain ⟨rfl, rfl⟩ := Prod.mk.inj heq
    exact hinfo
  · intro hinfo
    have hlive : Live r id := ((h.listed id).1 (by rw [hinfo]; rfl)).1
    have hlt : id < r.nextSessionId := by
      by_contra hge
      exact h.not_live_next (Nat.le_of_not_lt hge) hlive
    exact ⟨id, List.mem_range.2 hlt, by rw [hinfo]; rfl⟩

/-- The list is in the order of the numbers. -/
lemma sorted_entries (r : Registry) : ((entries r).map Prod.fst).Pairwise (· < ·) := by
  rw [List.pairwise_map, entries, List.pairwise_filterMap]
  refine List.pairwise_lt_range.imp ?_
  intro id id' hlt e he e' he'
  obtain ⟨info, -, rfl⟩ := Option.map_eq_some_iff.1 he
  obtain ⟨info', -, rfl⟩ := Option.map_eq_some_iff.1 he'
  exact hlt

section Runs

variable {auth : HealthAuth} (o : Operator auth) {r : Registry} {xs : List Exchange}

/-- The path that names a session. -/
def sessionPath (id : ℕ) : List Char := "/sessions/".toList ++ Nat.toDigits 10 id

/-- What a request that may abort sessions does with a number. -/
lemma route_sessionPath (env : Environment) {id : ℕ} (hid : id < 2 ^ 64) :
    route env r true "DELETE".toList (sessionPath id) =
      match sessionsKill r id with
      | (s, true) => (s, ⟨"200 OK".toList, "killed session ".toList ++ Nat.toDigits 10 id⟩)
      | (s, false) =>
        (s, ⟨"404 Not Found".toList, "no session ".toList ++ Nat.toDigits 10 id⟩) := by
  have hne : ¬ (sessionPath id = "/sessions".toList ∨ sessionPath id = "/sessions/".toList) := by
    have hsplit : sessionPath id = "/sessions".toList ++ '/' :: Nat.toDigits 10 id := rfl
    rintro (heq | heq)
    · exact List.cons_ne_nil _ _ (List.append_right_eq_self.1 (hsplit.symm.trans heq))
    · exact Nat.toDigits_ne_nil (List.append_right_eq_self.1 heq)
  have hstrip : stripPrefix "/sessions/".toList (sessionPath id) = some (Nat.toDigits 10 id) := rfl
  have hdigits : (Nat.toDigits 10 id).takeWhile (fun c => c ≠ '/' ∧ c ≠ '?') =
      Nat.toDigits 10 id := by
    rw [List.takeWhile_eq_self_iff]
    intro c hc
    have hdigit : c.isDigit = true := Nat.isDigit_of_mem_toDigits (by omega) (by omega) hc
    rw [decide_eq_true_eq]
    constructor
    all_goals
      rintro rfl
      cases hdigit
  have hparse : parseU64 (Nat.toDigits 10 id) = some id :=
    (DbSaci.Translate.FetchTies.TiesQuery.parseU64_digits id).trans (if_pos hid)
  rw [route, if_neg hne, hstrip]
  dsimp only
  rw [hdigits, hparse]
  rfl

end Runs

/-! ### A session that is listed and aborted -/

/-- An endpoint that everyone can reach, with a token. -/
def openAuth : HealthAuth := ⟨"0.0.0.0:9500".toList, some "s3cret".toList⟩

/-- A backend that can be reached, and sessions that are seven seconds old. -/
def calmEnvironment : Environment := ⟨true, ⟨1, 1, 0, 0⟩, fun _ => 7⟩

/-- A request without a token. -/
def strangeRequest : List UInt8 := utf8Encode "GET /sessions HTTP/1.1\r\n\r\n".toList

/-- Someone who knows the token. -/
def keeper : Operator openAuth where
  token := "s3cret".toList
  others := ["Host: localhost:9500".toList]
  knows := rfl
  trimmed := ⟨by decide, by decide, by decide⟩
  line := by decide
  other := by decide

/-- A session of a user. -/
lemma scottSession_run : ∃ r : Registry, Run (Guarded (Served openAuth) InOrder) .start
    [.session (.spawn "10.0.0.7:51034"), .session .register, .session (.poll 1),
      .session (.setUser 1 "SCOTT")] r ∧ r.registering = none ∧
    r.sessions 1 = some ⟨"10.0.0.7:51034", some "SCOTT"⟩ ∧ Live r 1 := by
  refine ⟨_, .cons ⟨.session (.spawn _ rfl) (by simp), trivial⟩ <|
    .cons ⟨.session (.register rfl) (by simp), trivial⟩ <|
    .cons ⟨.session (.poll rfl) (by simp), trivial⟩ <|
    .cons ⟨.session (.setUser "SCOTT" rfl) (by simp), trivial⟩ (.nil _), rfl, rfl, _, rfl, ?_⟩
  decide

end DbSaci.Server.Health
