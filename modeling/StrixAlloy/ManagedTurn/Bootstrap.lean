import Mathlib.Data.List.Dedup
import Mathlib.Data.List.Infix
import StrixAlloy.BusinessTasks
import StrixAlloy.Lib.Json

/-!
# The managed TURN bootstrap

`ManagedTurnBootstrap.ice_servers` creates a cloud session, takes the TURN destinations of the response, and deletes
the session whatever becomes of them. The HTTP client is an oracle (`Client`) with an answer for each await: a value, an
exception or a cancellation, where a timeout is an exception. The reader of JSON is any function.
-/

namespace StrixAlloy.ManagedTurn

open List

/-! ## Destinations -/

/-- Lower-case letters, digits and inner hyphens, at most `n` of them. -/
def isLabel (n : ℕ) (cs : List Char) : Bool :=
  cs ≠ [] && cs.length ≤ n && (cs.all fun c => c.isLower || c.isDigit || c = '-') && cs.head? ≠ some '-' &&
    cs.getLast? ≠ some '-'

/-- `_HOST.fullmatch`. -/
def isHost (value : String) : Bool :=
  let cs := value.toList
  let before := "aivoiceservice-".toList
  let after := ".sncapps.service-now.com".toList
  decide (before <+: cs) && decide (after <:+ cs) &&
    isLabel 102 ((cs.drop before.length).take (cs.length - before.length - after.length))

/-- `_SESSION.fullmatch`. -/
def isSession (value : String) : Bool :=
  match value.toList with
  | [] => false
  | c :: cs => c.isAlphanum && cs.length ≤ 127 && cs.all fun d => d.isAlphanum || d = '_' || d = '-'

/-- `_INSTANCE.fullmatch`. -/
def isInstance (value : String) : Bool := isLabel 63 value.toList

/-- `_SERVICE.fullmatch`. -/
def isService (value : String) : Bool :=
  value.length = 32 && value.toList.all fun c => c.isDigit || ('a' ≤ c && c ≤ 'f')

/-- A token of 1 to 8192 printable characters. -/
def isToken (value : String) : Bool :=
  1 ≤ value.length && value.length ≤ 8192 && value.toList.all fun c => 33 ≤ c.toNat && c.toNat ≤ 126

/-- `_turn_url`, of a text: the group of the pattern has none of the four characters, so that a text matches with one
group at most. -/
def isTurnUrl (value : String) (allowed : List String) : Bool :=
  value.length ≤ 512 && allowed.any fun host => host ≠ "" &&
    (host.toList.all fun c => c ∉ [':', '/', '?', '#']) && value = "turns:" ++ host ++ ":443?transport=tcp"

/-- The parts of `urlsplit`. -/
structure Url where
  scheme : List Char
  netloc : List Char
  path : List Char
  query : List Char
  fragment : List Char

/-- What stands before the first `c`, and after it. -/
def splitAt (c : Char) (cs : List Char) : List Char × List Char :=
  (cs.takeWhile (· ≠ c), (cs.dropWhile (· ≠ c)).drop 1)

/-- `urlsplit`. Its checks of brackets and of composed characters are left out: no netloc that they refuse is an allowed
host. -/
def urlsplit (value : String) : Url :=
  let url := (value.toList.dropWhile fun c => c.toNat ≤ 32).filter fun c => c ∉ ['\t', '\r', '\n']
  let head := (splitAt ':' url).1
  let named := ':' ∈ url ∧ head.head?.any Char.isAlpha ∧ head.all fun c => c.isAlphanum || c ∈ ['+', '-', '.']
  let scheme := if named then head.map Char.toLower else []
  let url := if named then (splitAt ':' url).2 else url
  let placed := url.take 2 = ['/', '/']
  let ends := fun c => c ∉ ['/', '?', '#']
  let netloc := if placed then (url.drop 2).takeWhile ends else []
  let url := if placed then (url.drop 2).dropWhile ends else url
  let (url, fragment) := splitAt '#' url
  let (path, query) := splitAt '?' url
  ⟨scheme, netloc, path, query, fragment⟩

/-- `hostname`: without the user and the port, in lower case. -/
def Url.hostname (url : Url) : String :=
  String.ofList ((splitAt ':' (url.netloc.reverse.takeWhile (· ≠ '@')).reverse).1.map Char.toLower)

/-- `_origin`; none where it raises. -/
def origin (value : Json) (allowed : List String) (bare : Bool) : Option String :=
  match value with
  | .str s =>
    if 512 < s.length then none
    else
      let parsed := urlsplit (if bare && isHost s then "https://" ++ s else s)
      let hostname := parsed.hostname
      if parsed.scheme = "https".toList ∧ hostname ∈ allowed ∧
          (parsed.netloc = hostname.toList ∨ parsed.netloc = (hostname ++ ":443").toList) ∧
          (parsed.path = [] ∨ parsed.path = ['/']) ∧ parsed.query = [] ∧ parsed.fragment = [] then
        some ("https://" ++ hostname)
      else none
  | _ => none

/-- An enabled `ManagedTurnConfiguration`. -/
structure Configuration where
  base_origin : String
  signaling_hosts : List String
  turn_hosts : List String
  static_ice_urls : Option (List String)
  /-- The checks of `__post_init__`. -/
  valid : (∀ hosts ∈ [signaling_hosts, turn_hosts], 1 ≤ hosts.length ∧ hosts.length ≤ 16 ∧
      (∀ host ∈ hosts, isHost host) ∧ hosts.Nodup) ∧
    origin (.str base_origin) signaling_hosts false = some base_origin ∧
    ∀ urls ∈ static_ice_urls, 1 ≤ urls.length ∧ urls.length ≤ 4 ∧ (∀ url ∈ urls, isTurnUrl url turn_hosts) ∧ urls.Nodup

/-! ## The client -/

/-- What a call raises: a cancellation, `ManagedTurnUnavailable`, or another exception. -/
inductive Exc where
  | cancelled | unavailable | error
deriving DecidableEq

/-- The head of the response to the creation. Without the header its content type is empty. -/
structure Head where
  status : ℕ
  content_type : String

/-- What the awaits of `ice_servers` come to. -/
structure Client where
  /-- The client session opens. -/
  enter : Except Exc Unit
  /-- The response to the creation. -/
  post : Except Exc Head
  /-- The reads of its body. -/
  read : ℕ → Except Exc (List UInt8)
  /-- The response is left. -/
  leave : Except Exc Unit
  /-- The status of the response to the deletion, and how that is left. -/
  delete : Except Exc ℕ
  leave_delete : Except Exc Unit
  /-- The caller is cancelled while it waits for the deletion. -/
  cancelled : Bool
  /-- The second wait for the deletion, after a cancellation. -/
  second : Except Exc Unit
  /-- The client session closes. -/
  close : Except Exc Unit

/-- The end of an `async with` block whose body comes to `r`: an exception of the exit takes its place. -/
def leaving {α : Type} (exit : Except Exc Unit) (r : Except Exc α) : Except Exc α :=
  match exit with
  | .ok () => r
  | .error e => .error e

def MAX_RESPONSE_BYTES : ℕ := 65536

/-- The body, read until it ends or is too long. -/
def readBody (client : Client) (i : ℕ) (data : List UInt8) : Except Exc (List UInt8) :=
  if MAX_RESPONSE_BYTES < data.length then .ok data
  else
    match client.read i with
    | .error e => .error e
    | .ok [] => .ok data
    | .ok (b :: chunk) => readBody client (i + 1) (data ++ b :: chunk)
termination_by MAX_RESPONSE_BYTES + 1 - data.length
decreasing_by
  rw [length_append, length_cons]
  omega

/-- The media type of a `Content-Type`. -/
def mediaType (content_type : String) : String :=
  let cs := ((splitAt ';' content_type.toList).1.dropWhile isSpace).reverse.dropWhile isSpace
  String.ofList (cs.reverse.map Char.toLower)

section Bootstrap

variable (loads : List UInt8 → Option Json)

/-- The payload of the response. -/
def readPayload (client : Client) (head : Head) : Except Exc (List (String × Json)) :=
  if head.status ≠ 200 then .error .unavailable
  else if mediaType head.content_type ≠ "application/json" then .error .unavailable
  else
    match readBody client 0 [] with
    | .error e => .error e
    | .ok data =>
      if MAX_RESPONSE_BYTES < data.length then .error .unavailable
      else
        match loads data with
        | some (.dict members) => .ok members
        | _ => .error .error

/-- The identifier of the session that a payload names. -/
def sessionId (payload : List (String × Json)) : Option String :=
  match Json.get? payload "session_id" with
  | some (.str sid) => if isSession sid then some sid else none
  | _ => none

/-- The URLs of a row of `iceServers`. -/
def rowUrls (allowed : List String) (row : Json) : Option (List String) :=
  match row with
  | .dict members =>
    match Json.get? members "urls" with
    | some (.list urls) =>
      if 1 ≤ urls.length ∧ urls.length ≤ 4 then
        urls.mapM fun url =>
          match url with
          | .str s => if isTurnUrl s allowed then some s else none
          | _ => none
      else none
    | _ => none
  | _ => none

/-- An entry of the result. -/
def server (url : String) : Json := .dict [("urls", .list [.str url])]

/-- `if url not in urls: urls.append(url)`, for each of `more`. -/
def addNew (urls more : List String) : List String :=
  more.foldl (fun urls url => if url ∈ urls then urls else urls ++ [url]) urls

/-- `_servers`; none where it raises. -/
def servers (payload : List (String × Json)) (allowed : List String) : Option (List Json) :=
  match Json.get? payload "iceServers" with
  | some (.list rows) =>
    if 1 ≤ rows.length ∧ rows.length ≤ 4 then
      (rows.mapM (rowUrls allowed)).map fun urls => (addNew [] urls.flatten).map server
    else none
  | _ => none

/-- An exception as `_delete` raises it. -/
def deleteError : Exc → Exc
  | .cancelled => .cancelled
  | _ => .unavailable

/-- `_delete`, once its request has started. -/
def deletion (client : Client) : Except Exc Unit :=
  match client.delete with
  | .error e => .error (deleteError e)
  | .ok status =>
    let answered := if status ∈ [200, 204, 404] then .ok () else .error .unavailable
    (leaving client.leave_delete answered).mapError deleteError

/-- The `finally` block, once the task of the deletion is there. The caller suspends at once, so that the task starts
its request. A cancellation, of the caller or of the task, is raised again, however the second wait ends. -/
def cleanup (client : Client) : Except Exc Unit :=
  if client.cancelled ∨ deletion client = .error .cancelled then
    match client.second with
    | .ok () => .error .cancelled
    | .error _ => .error .cancelled
  else deletion client

/-- How a call ends, how many requests of creation it started, and the requests of deletion, each with its origin and
its session. -/
structure Run where
  result : Except Exc (List Json)
  posts : ℕ
  deletes : List (String × String)

/-- The block in the client session. -/
def bootstrap (config : Configuration) (client : Client) : Run :=
  let response : Except Exc (List (String × Json)) :=
    match client.post with
    | .error e => .error e
    | .ok head => leaving client.leave (readPayload loads client head)
  match response with
  | .error e => ⟨.error e, 1, []⟩
  | .ok payload =>
    match sessionId payload with
    | none => ⟨.error .unavailable, 1, []⟩
    | some sid =>
      let endpoint := origin ((Json.get? payload "endpoint_url").getD .null) config.signaling_hosts true
      let result : Except Exc (List Json) :=
        match endpoint, servers payload config.turn_hosts with
        | some _, some servers => .ok servers
        | _, _ => .error .error
      ⟨leaving (cleanup client) result, 1, [(endpoint.getD config.base_origin, sid)]⟩

/-- The client session, around that block. -/
def connect (config : Configuration) (client : Client) : Run :=
  match client.enter with
  | .error e => ⟨.error e, 0, []⟩
  | .ok () =>
    let run := bootstrap loads config client
    { run with result := leaving client.close run.result }

/-- An exception as `ice_servers` raises it. -/
def surface : Exc → Exc
  | .cancelled => .cancelled
  | _ => .unavailable

/-- `ice_servers`. -/
def iceServers (config : Configuration) (token inst service : String) (client : Client) : Run :=
  if ¬ (isToken token ∧ isInstance inst ∧ isService service) then ⟨.error .unavailable, 0, []⟩
  else
    match config.static_ice_urls with
    | some urls => ⟨.ok (urls.map server), 0, []⟩
    | none =>
      let run := connect loads config client
      { run with result := run.result.mapError surface }

/-! ## The result -/

/-- Distinct destinations in entries of their own, at least one and at most sixteen. -/
structure Approved (config : Configuration) (result : List Json) (urls : List String) : Prop where
  entries : result = urls.map server
  distinct : urls.Nodup
  nonempty : 1 ≤ urls.length
  length : urls.length ≤ 16
  allowed : ∀ url ∈ urls, isTurnUrl url config.turn_hosts

theorem rowUrls_spec {allowed : List String} {row : Json} {urls : List String} (h : rowUrls allowed row = some urls) :
    1 ≤ urls.length ∧ urls.length ≤ 4 ∧ ∀ url ∈ urls, isTurnUrl url allowed := by
  unfold rowUrls at h
  split at h
  · split at h
    · split_ifs at h with hlen
      have hall := Checked.forall₂_of_mapM h
      rw [hall.length_eq] at hlen
      refine ⟨hlen.1, hlen.2, fun url hmem => ?_⟩
      obtain ⟨i, hi, rfl⟩ := mem_iff_getElem.1 hmem
      have hget := hall.get (by rw [hall.length_eq]; exact hi) hi
      split at hget
      · split_ifs at hget with hallowed
        rwa [Option.some.inj hget] at hallowed
      · cases hget
    · cases h
  · cases h

theorem addNew_spec (urls more : List String) (h : urls.Nodup) :
    (addNew urls more).Nodup ∧ (addNew urls more).length ≤ urls.length + more.length ∧
      ∀ url, url ∈ addNew urls more ↔ url ∈ urls ∨ url ∈ more := by
  induction more generalizing urls with
  | nil => exact ⟨h, le_rfl, fun url => by simp [addNew]⟩
  | cons x more ih =>
    show (addNew (if x ∈ urls then urls else urls ++ [x]) more).Nodup ∧
      (addNew (if x ∈ urls then urls else urls ++ [x]) more).length ≤ urls.length + (x :: more).length ∧
        ∀ url, url ∈ addNew (if x ∈ urls then urls else urls ++ [x]) more ↔ url ∈ urls ∨ url ∈ x :: more
    split_ifs with hx
    · obtain ⟨h1, h2, h3⟩ := ih urls h
      refine ⟨h1, h2.trans (by rw [length_cons]; omega), fun url => ?_⟩
      rw [h3, mem_cons]
      exact ⟨Or.imp_right .inr, by rintro (hmem | rfl | hmem) <;> tauto⟩
    · obtain ⟨h1, h2, h3⟩ := ih (urls ++ [x]) (by rw [← concat_eq_append]; exact h.concat hx)
      refine ⟨h1, h2.trans ?_, fun url => ?_⟩
      · rw [length_append, length_singleton, length_cons]
        omega
      · rw [h3, mem_append, mem_singleton, mem_cons]
        tauto

/-- Rows of one to four elements have no more than four times as many elements, and at least one. -/
theorem length_flatten_le {rows : List (List String)} (h : ∀ row ∈ rows, 1 ≤ row.length ∧ row.length ≤ 4) :
    rows.length ≤ rows.flatten.length ∧ rows.flatten.length ≤ 4 * rows.length := by
  induction rows with
  | nil => exact ⟨le_rfl, le_rfl⟩
  | cons row rows ih =>
    obtain ⟨h1, h2⟩ := ih fun r hr => h r (mem_cons_of_mem _ hr)
    obtain ⟨h3, h4⟩ := h row mem_cons_self
    rw [flatten_cons, length_append, length_cons]
    omega

theorem servers_spec (config : Configuration) {payload : List (String × Json)} {result : List Json}
    (h : servers payload config.turn_hosts = some result) : ∃ urls, Approved config result urls := by
  unfold servers at h
  split at h
  · split_ifs at h with hlen
    obtain ⟨rows, hrows, rfl⟩ := Option.map_eq_some_iff.1 h
    have hall := Checked.forall₂_of_mapM hrows
    rw [hall.length_eq] at hlen
    have hrow : ∀ row ∈ rows, 1 ≤ row.length ∧ row.length ≤ 4 ∧ ∀ url ∈ row, isTurnUrl url config.turn_hosts := by
      intro row hmem
      obtain ⟨i, hi, rfl⟩ := mem_iff_getElem.1 hmem
      exact rowUrls_spec (hall.get (by rw [hall.length_eq]; exact hi) hi)
    obtain ⟨hlower, hupper⟩ := length_flatten_le fun row hmem => ⟨(hrow row hmem).1, (hrow row hmem).2.1⟩
    obtain ⟨hnodup, hle, hmem⟩ := addNew_spec [] rows.flatten nodup_nil
    rw [length_nil, Nat.zero_add] at hle
    refine ⟨addNew [] rows.flatten, rfl, hnodup, ?_, by omega, fun url hurl => ?_⟩
    · obtain ⟨url, hurl⟩ := exists_mem_of_length_pos (l := rows.flatten) (by omega)
      exact length_pos_of_mem ((hmem url).2 (.inr hurl))
    · obtain hnil | hurl := (hmem url).1 hurl
      · cases hnil
      · obtain ⟨row, hr, hurl⟩ := mem_flatten.1 hurl
        exact (hrow row hr).2.2 url hurl
  · cases h

/-! ## The session -/

/-- The session that the response to the creation names, once it was read completely, and the origin of its deletion. -/
def created (config : Configuration) (client : Client) : Option (String × String) :=
  match client.enter, client.post with
  | .ok (), .ok head =>
    match readPayload loads client head with
    | .ok payload =>
      (sessionId payload).map fun sid =>
        ((origin ((Json.get? payload "endpoint_url").getD .null) config.signaling_hosts true).getD config.base_origin,
          sid)
    | .error _ => none
  | _, _ => none

variable {loads} {config : Configuration} {client : Client}

theorem leaving_eq_ok {α : Type} {exit : Except Exc Unit} {r : Except Exc α} {a : α} :
    leaving exit r = .ok a ↔ exit = .ok () ∧ r = .ok a := by
  unfold leaving
  cases exit with
  | ok => simp
  | error => simp

/-- A deletion that succeeds was answered. -/
theorem cleanup_eq_ok (h : cleanup client = .ok ()) :
    ∃ status, client.delete = .ok status ∧ status ∈ [200, 204, 404] := by
  unfold cleanup at h
  split_ifs at h
  · split at h <;> cases h
  · unfold deletion at h
    split at h
    · cases h
    · rename_i status hdelete
      rw [Checked.mapError_eq_ok, leaving_eq_ok] at h
      split_ifs at h with hstatus
      · exact ⟨status, hdelete, hstatus⟩
      · cases h.2

theorem surface_cases (e : Exc) : surface e = .unavailable ∨ surface e = .cancelled := by
  cases e
  · exact .inr rfl
  · exact .inl rfl
  · exact .inl rfl

/-- What the block in the client session returns and deletes. -/
structure Spec (config : Configuration) (client : Client) (named : Option (String × String)) (run : Run) : Prop where
  posts : run.posts ≤ 1
  nothing : named = none → run.deletes = []
  session : ∀ session, named = some session → client.leave = .ok () → run.deletes = [session]
  returned : ∀ result, run.result = .ok result → (∃ urls, Approved config result urls) ∧
    ∃ session status, named = some session ∧ run.deletes = [session] ∧ client.delete = .ok status ∧
      status ∈ [200, 204, 404]

/-- A run without a session. -/
theorem spec_error (e : Exc) {named : Option (String × String)} {posts : ℕ} (hposts : posts ≤ 1)
    (h : ∀ session, named = some session → client.leave ≠ .ok ()) : Spec config client named ⟨.error e, posts, []⟩ where
  posts := hposts
  nothing _ := rfl
  session session hsession hleave := absurd hleave (h session hsession)
  returned := nofun

theorem bootstrap_spec (henter : client.enter = .ok ()) :
    Spec config client (created loads config client) (bootstrap loads config client) := by
  unfold created bootstrap
  rw [henter]
  cases client.post with
  | error e => exact spec_error e le_rfl nofun
  | ok head =>
    dsimp only
    cases hleave : client.leave with
    | error e => exact spec_error e le_rfl fun _ _ h => nomatch hleave.symm.trans h
    | ok =>
      show Spec config client _ (match readPayload loads client head with | .error e => _ | .ok payload => _)
      cases readPayload loads client head with
      | error e => exact spec_error e le_rfl nofun
      | ok payload =>
        dsimp only
        cases sessionId payload with
        | none => exact spec_error .unavailable le_rfl nofun
        | some =>
          refine ⟨le_rfl, nofun, fun session hsession _ => ?_, fun result hresult => ?_⟩
          · rw [← Option.some.inj hsession]
          · obtain ⟨hcleanup, hresult⟩ := leaving_eq_ok.1 hresult
            obtain ⟨status, hdelete, hstatus⟩ := cleanup_eq_ok hcleanup
            refine ⟨?_, _, status, rfl, rfl, hdelete, hstatus⟩
            split at hresult
            · rename_i hservers
              cases hresult
              exact servers_spec config hservers
            · cases hresult

theorem connect_spec : Spec config client (created loads config client) (connect loads config client) := by
  unfold connect
  cases henter : client.enter with
  | error e =>
    refine spec_error e zero_le_one fun session hsession => ?_
    unfold created at hsession
    rw [henter] at hsession
    cases hsession
  | ok =>
    obtain ⟨hposts, hnothing, hsession, hreturned⟩ : Spec config client (created loads config client)
      (bootstrap loads config client) := bootstrap_spec henter
    exact ⟨hposts, hnothing, hsession, fun result hresult => hreturned result (leaving_eq_ok.1 hresult).2⟩

end Bootstrap

/-- However the client answers and wherever the call is cancelled: it returns distinct approved destinations in entries
of their own, between one and sixteen, or raises `ManagedTurnUnavailable` or the cancellation. Without static
destinations, at most one creation is requested; a session that the response names is deleted exactly once, where the
response is left without an exception; without one nothing is deleted; and the call returns only if the deletion was
answered 200, 204 or 404. With static destinations they are returned, and nothing is created or deleted. -/
theorem ice_servers_cleanup (loads : List UInt8 → Option Json) (config : Configuration) (token inst service : String)
    (client : Client) :
    let run := iceServers loads config token inst service client
    (∀ e, run.result = .error e → e = .unavailable ∨ e = .cancelled) ∧
      (∀ result, run.result = .ok result → ∃ urls, Approved config result urls) ∧
      (config.static_ice_urls = none → isToken token ∧ isInstance inst ∧ isService service →
        run.posts ≤ 1 ∧ (created loads config client = none → run.deletes = []) ∧
          (∀ session, created loads config client = some session → client.leave = .ok () → run.deletes = [session]) ∧
          ∀ result, run.result = .ok result → ∃ session status, created loads config client = some session ∧
            run.deletes = [session] ∧ client.delete = .ok status ∧ status ∈ [200, 204, 404]) ∧
      (¬ (isToken token ∧ isInstance inst ∧ isService service) → run.result = .error .unavailable ∧ run.posts = 0 ∧
        run.deletes = []) ∧
      ∀ urls, config.static_ice_urls = some urls → isToken token ∧ isInstance inst ∧ isService service →
        run.result = .ok (urls.map server) ∧ run.posts = 0 ∧ run.deletes = [] := by
  intro run
  have hrun : run = iceServers loads config token inst service client := rfl
  clear_value run
  unfold iceServers at hrun
  by_cases hargs : isToken token ∧ isInstance inst ∧ isService service
  · rw [if_neg (not_not.2 hargs)] at hrun
    cases hstatic : config.static_ice_urls with
    | some urls =>
      rw [hstatic] at hrun
      rw [hrun]
      obtain ⟨h1, h2, h3, h4⟩ := config.valid.2.2 urls hstatic
      refine ⟨nofun, fun result hresult => ⟨urls, (Except.ok.inj hresult).symm, h4, h1, by omega, h3⟩, nofun,
        fun h => absurd hargs h, fun urls' hurls _ => ?_⟩
      rw [Option.some.inj hurls]
      exact ⟨rfl, rfl, rfl⟩
    | none =>
      rw [hstatic] at hrun
      have hspec : Spec config client (created loads config client) (connect loads config client) := connect_spec
      have hok : ∀ result, run.result = .ok result → (connect loads config client).result = .ok result := by
        intro result hresult
        rw [hrun] at hresult
        exact Checked.mapError_eq_ok.1 hresult
      have hposts : run.posts = (connect loads config client).posts := by rw [hrun]
      have hdeletes : run.deletes = (connect loads config client).deletes := by rw [hrun]
      refine ⟨fun e he => ?_, fun result hresult => (hspec.returned result (hok result hresult)).1, fun _ _ => ?_,
        fun h => absurd hargs h, nofun⟩
      · rw [hrun] at he
        dsimp only at he
        cases hresult : (connect loads config client).result with
        | ok =>
          rw [hresult] at he
          cases he
        | error e' =>
          rw [hresult] at he
          rw [← Except.error.inj he]
          exact surface_cases e'
      · rw [hposts, hdeletes]
        exact ⟨hspec.posts, hspec.nothing, hspec.session,
          fun result hresult => (hspec.returned result (hok result hresult)).2⟩
  · rw [if_pos hargs] at hrun
    rw [hrun]
    exact ⟨fun e he => .inl (Except.error.inj he).symm, nofun, fun _ h => absurd h hargs, fun _ => ⟨rfl, rfl, rfl⟩,
      fun _ _ h => absurd h hargs⟩

/-- A configuration with a static destination. -/
def staticConfiguration : Configuration where
  base_origin := "https://aivoiceservice-a.sncapps.service-now.com"
  signaling_hosts := ["aivoiceservice-a.sncapps.service-now.com"]
  turn_hosts := ["aivoiceservice-b.sncapps.service-now.com"]
  static_ice_urls := some ["turns:aivoiceservice-b.sncapps.service-now.com:443?transport=tcp"]
  valid := by decide +kernel

/-- A client that reaches nothing. -/
def offline : Client := ⟨.error .error, .error .error, fun _ => .error .error, .ok (), .error .error, .ok (), false,
  .ok (), .ok ()⟩

/-- With static destinations the call returns without a deletion. -/
theorem static_without_deletion :
    let run := iceServers (fun _ => none) staticConfiguration "token" "dev1" "0123456789abcdef0123456789abcdef" offline
    run.result = .ok [server "turns:aivoiceservice-b.sncapps.service-now.com:443?transport=tcp"] ∧ run.deletes = [] := by
  have hargs : isToken "token" ∧ isInstance "dev1" ∧ isService "0123456789abcdef0123456789abcdef" := by decide
  unfold iceServers
  rw [if_neg (not_not.2 hargs)]
  exact ⟨rfl, rfl⟩

end StrixAlloy.ManagedTurn
