import ReplicatedSplinterDB.Common.Types

/-!
# Connecting a client

A client asks the server it is pointed at for the list of all servers and for
the leader, and connects to each server of the list.  Servers that cannot be
reached are skipped; a malformed endpoint stops the constructor.

Main results:

- Definition {lit}`Client.new`: the constructor, with the replies of the first
  server and the outcome of each connection attempt as arguments.
- Theorem {lit}`Client.mem_ids_new_iff`: a new client is connected to exactly the
  listed servers that could be reached.
-/

namespace ReplicatedSplinterDB

/-! ## Endpoints -/

/-- The address of a server. -/
structure Endpoint where
  host : String
  port : UInt16
deriving DecidableEq, Repr

/-- The characters that {lit}`std::isspace` skips. -/
def isSpace (c : Char) : Bool := c == ' ' || (9 ≤ c.toNat && c.toNat ≤ 13)

/-- The number that a list of decimal digits denotes. -/
def digitsValue (digits : List Char) : Nat :=
  digits.foldl (fun n c => n * 10 + (c.toNat - 48)) 0

/-- The number that a text begins with: skip blanks, read an optional sign and as
many digits as there are, and ignore the rest. -/
def leadingNumber (s : List Char) : Option Int :=
  let s := s.dropWhile isSpace
  let (negative, s) := match s with
    | '-' :: rest => (true, rest)
    | '+' :: rest => (false, rest)
    | rest => (false, rest)
  let digits := s.takeWhile Char.isDigit
  if digits = [] then none
  else
    let magnitude : Int := digitsValue digits
    some (if negative then -magnitude else magnitude)

/-- {lit}`std::stoi` -/
def stoi (s : List Char) : Except Exception Int :=
  match leadingNumber s with
  | none => .error .invalidArgument
  | some value => if value < -2 ^ 31 ∨ 2 ^ 31 ≤ value then .error .outOfRange else .ok value

/-- The text behind the first colon, or the whole text if there is none. -/
def afterColon (s : List Char) : List Char :=
  match s.dropWhile (· ≠ ':') with
  | [] => s
  | _ :: rest => rest

/-- Split an endpoint at its first colon and check the port. -/
def parseEndpoint (endpoint : String) : Except Exception Endpoint :=
  let srvHost := String.ofList (endpoint.toList.takeWhile (· ≠ ':'))
  match stoi (afterColon endpoint.toList) with
  | .error e => .error e
  | .ok srvPort =>
      if 1 > srvPort ∨ srvPort > 65535 then
        .error (.runtimeError
          ("invalid port number for host \"" ++ srvHost ++ "\": " ++ toString srvPort))
      else .ok ⟨srvHost, UInt16.ofNat srvPort.toNat⟩

/-! ## The map of connected servers -/

/-- The connected servers, in ascending order of their identifiers. -/
structure ServerMap where
  entries : List (Int32 × Endpoint)
  sorted : entries.Pairwise fun a b => a.1 < b.1

/-- Insert an entry in its place unless its identifier is already there. -/
def emplaceInto (id : Int32) (endpoint : Endpoint) :
    List (Int32 × Endpoint) → List (Int32 × Endpoint)
  | [] => [(id, endpoint)]
  | entry :: rest =>
      if id < entry.1 then (id, endpoint) :: entry :: rest
      else if id = entry.1 then entry :: rest
      else entry :: emplaceInto id endpoint rest

theorem mem_map_emplaceInto_iff (id j : Int32) (endpoint : Endpoint)
    (entries : List (Int32 × Endpoint)) :
    j ∈ (emplaceInto id endpoint entries).map Prod.fst ↔ j = id ∨ j ∈ entries.map Prod.fst := by
  induction entries with
  | nil => simp [emplaceInto]
  | cons entry rest ih =>
      simp only [emplaceInto]
      split
      · simp
      · split
        · rename_i hsame
          subst hsame
          simp
        · simp only [List.map_cons, List.mem_cons, ih]
          exact or_left_comm

theorem sorted_emplaceInto (id : Int32) (endpoint : Endpoint) {entries : List (Int32 × Endpoint)}
    (h : entries.Pairwise fun a b => a.1 < b.1) :
    (emplaceInto id endpoint entries).Pairwise fun a b => a.1 < b.1 := by
  induction entries with
  | nil => simp [emplaceInto]
  | cons entry rest ih =>
      rw [List.pairwise_cons] at h
      rcases h with ⟨hfirst, hrest⟩
      simp only [emplaceInto]
      split
      · rename_i hlt
        rw [List.pairwise_cons, List.pairwise_cons]
        refine ⟨?_, hfirst, hrest⟩
        intro x hx
        rcases List.mem_cons.mp hx with rfl | hx
        · exact hlt
        · exact Int32.lt_trans hlt (hfirst x hx)
      · split
        · exact List.pairwise_cons.mpr ⟨hfirst, hrest⟩
        · rename_i hnlt hne
          have hlt : entry.1 < id := by grind
          refine List.pairwise_cons.mpr ⟨?_, ih hrest⟩
          intro x hx
          have hid : x.1 ∈ (emplaceInto id endpoint rest).map Prod.fst :=
            List.mem_map_of_mem hx
          rcases (mem_map_emplaceInto_iff id x.1 endpoint rest).mp hid with heq | hmem
          · rw [heq]
            exact hlt
          · rcases List.mem_map.mp hmem with ⟨y, hy, hyx⟩
            rw [← hyx]
            exact hfirst y hy

namespace ServerMap

/-- No server is connected. -/
def empty : ServerMap := ⟨[], List.Pairwise.nil⟩

/-- The identifiers of the connected servers, in ascending order. -/
def ids (m : ServerMap) : List Int32 := m.entries.map Prod.fst

/-- Add a connected server, unless one with its identifier is there. -/
def emplace (m : ServerMap) (id : Int32) (endpoint : Endpoint) : ServerMap :=
  ⟨emplaceInto id endpoint m.entries, sorted_emplaceInto id endpoint m.sorted⟩

theorem mem_ids_emplace_iff (m : ServerMap) (id j : Int32) (endpoint : Endpoint) :
    j ∈ (m.emplace id endpoint).ids ↔ j = id ∨ j ∈ m.ids :=
  mem_map_emplaceInto_iff id j endpoint m.entries

theorem sorted_ids (m : ServerMap) : m.ids.Pairwise (· < ·) :=
  List.pairwise_map.mpr m.sorted

theorem nodup_ids (m : ServerMap) : m.ids.Nodup := by
  apply m.sorted_ids.imp
  intro id other hlt heq
  exact Int32.lt_irrefl (heq ▸ hlt)

end ServerMap

/-! ## The constructor -/

/-- The members of {lit}`client`. -/
structure Client where
  clients : ServerMap
  readPolicy : List Int32
  leaderId : Int32
  numRetries : UInt16

/-- What the server that the client is pointed at answers. -/
structure FirstContact where
  connection : Except String Unit
  ping : Except String String
  servers : Except String (List (Int32 × String))
  leaderId : Except String Int32

/-- The three calls of the constructor's first block. -/
def FirstContact.replies (contact : FirstContact) :
    Except String (List (Int32 × String) × Int32) := do
  let pong ← contact.ping
  if pong ≠ "pong" then throw "server returned unexpected response"
  let srvs ← contact.servers
  let leaderId ← contact.leaderId
  return (srvs, leaderId)

/-- Connect to the listed servers and skip those that cannot be reached. -/
def connectAll (connects : Int32 → Endpoint → Bool) :
    List (Int32 × String) → ServerMap → Except Exception ServerMap
  | [], clients => .ok clients
  | (srvId, text) :: srvs, clients =>
      match parseEndpoint text with
      | .error e => .error e
      | .ok endpoint =>
          if connects srvId endpoint then
            connectAll connects srvs (clients.emplace srvId endpoint)
          else connectAll connects srvs clients

/-- The constructor.  A failure of the first block ends the process. -/
def Client.new (contact : FirstContact) (connects : Int32 → Endpoint → Bool)
    (numRetries : UInt16) : Except Exception Client :=
  match contact.connection with
  | .error what => .error (.rpc what)
  | .ok _ =>
      match contact.replies with
      | .error _ => .error (.exit 1)
      | .ok (srvs, leaderId) =>
          match connectAll connects srvs .empty with
          | .error e => .error e
          | .ok clients => .ok ⟨clients, clients.ids, leaderId, numRetries⟩

/-- The server is on the list and could be reached. -/
def Reached (connects : Int32 → Endpoint → Bool) (srvs : List (Int32 × String)) (id : Int32) :
    Prop :=
  ∃ text endpoint, (id, text) ∈ srvs ∧ parseEndpoint text = .ok endpoint ∧
    connects id endpoint = true

theorem reached_cons_iff {connects : Int32 → Endpoint → Bool} {srvId : Int32} {text : String}
    {endpoint : Endpoint} (hparse : parseEndpoint text = .ok endpoint)
    (srvs : List (Int32 × String)) (id : Int32) :
    Reached connects ((srvId, text) :: srvs) id ↔
      (id = srvId ∧ connects srvId endpoint = true) ∨ Reached connects srvs id := by
  constructor
  · rintro ⟨text', endpoint', hmem, hparse', hconnects⟩
    rcases List.mem_cons.mp hmem with heq | hmem
    · cases heq
      rw [hparse] at hparse'
      cases hparse'
      exact .inl ⟨rfl, hconnects⟩
    · exact .inr ⟨text', endpoint', hmem, hparse', hconnects⟩
  · rintro (⟨rfl, hconnects⟩ | ⟨text', endpoint', hmem, hparse', hconnects⟩)
    · exact ⟨text, endpoint, List.mem_cons_self, hparse, hconnects⟩
    · exact ⟨text', endpoint', List.mem_cons_of_mem _ hmem, hparse', hconnects⟩

theorem mem_ids_connectAll_iff {connects : Int32 → Endpoint → Bool} {srvs : List (Int32 × String)}
    {m m' : ServerMap} (h : connectAll connects srvs m = .ok m') (id : Int32) :
    id ∈ m'.ids ↔ id ∈ m.ids ∨ Reached connects srvs id := by
  induction srvs generalizing m with
  | nil =>
      cases h
      simp [Reached]
  | cons srv srvs ih =>
      rcases srv with ⟨srvId, text⟩
      simp only [connectAll] at h
      cases hparse : parseEndpoint text with
      | error e =>
          rw [hparse] at h
          cases h
      | ok endpoint =>
          rw [hparse] at h
          dsimp only at h
          rw [reached_cons_iff hparse]
          by_cases hconnects : connects srvId endpoint = true
          · rw [if_pos hconnects] at h
            rw [ih h, ServerMap.mem_ids_emplace_iff]
            simp only [hconnects, and_true]
            exact or_assoc.trans or_left_comm
          · rw [if_neg hconnects] at h
            rw [ih h]
            simp [hconnects]

/-- A constructor that returns got all replies, and the loop over the listed
servers did not throw. -/
theorem Client.new_eq_ok {contact : FirstContact} {connects : Int32 → Endpoint → Bool}
    {numRetries : UInt16} {c : Client} (hnew : Client.new contact connects numRetries = .ok c) :
    ∃ srvs leader clients, contact.replies = .ok (srvs, leader) ∧
      connectAll connects srvs .empty = .ok clients ∧
      c = ⟨clients, clients.ids, leader, numRetries⟩ := by
  unfold Client.new at hnew
  split at hnew
  · cases hnew
  · cases hreplies : contact.replies with
    | error what =>
        rw [hreplies] at hnew
        cases hnew
    | ok replies =>
        rcases replies with ⟨srvs, leader⟩
        rw [hreplies] at hnew
        dsimp only at hnew
        cases hclients : connectAll connects srvs .empty with
        | error e =>
            rw [hclients] at hnew
            cases hnew
        | ok clients =>
            rw [hclients] at hnew
            cases hnew
            exact ⟨srvs, leader, clients, rfl, hclients, rfl⟩

/-- A constructor whose first block succeeds keeps what its loop connects to. -/
theorem Client.new_of_connectAll {connects : Int32 → Endpoint → Bool}
    {srvs : List (Int32 × String)} {clients : ServerMap}
    (h : connectAll connects srvs .empty = .ok clients) (leader : Int32) (numRetries : UInt16) :
    Client.new ⟨.ok (), .ok "pong", .ok srvs, .ok leader⟩ connects numRetries =
      .ok ⟨clients, clients.ids, leader, numRetries⟩ := by
  have hreplies : FirstContact.replies ⟨.ok (), .ok "pong", .ok srvs, .ok leader⟩ =
      .ok (srvs, leader) := rfl
  unfold Client.new
  dsimp only
  rw [hreplies]
  dsimp only
  rw [h]

/-- The state of a new client: its servers are those that were listed and could
be reached, and its leader is the one that the first server named. -/
theorem Client.mem_ids_new_iff {contact : FirstContact} {connects : Int32 → Endpoint → Bool}
    {numRetries : UInt16} {srvs : List (Int32 × String)} {leader : Int32} {c : Client}
    (hreplies : contact.replies = .ok (srvs, leader))
    (hnew : Client.new contact connects numRetries = .ok c) :
    c.leaderId = leader ∧ ∀ id, id ∈ c.clients.ids ↔ Reached connects srvs id := by
  rcases Client.new_eq_ok hnew with ⟨srvs', leader', clients, hreplies', hclients, rfl⟩
  rw [hreplies] at hreplies'
  cases hreplies'
  refine ⟨rfl, ?_⟩
  intro id
  rw [mem_ids_connectAll_iff hclients]
  simp [ServerMap.empty, ServerMap.ids]

end ReplicatedSplinterDB
