import ReplicatedSplinterDB.Client.Mutation

/-!
# Leader lookup

A client that has lost its leader asks the connected servers in ascending order
of their identifiers.  It asks one server until the server names a leader, a call
fails or the retries are used up, and then goes on to the next one.

The specification fixes the outcome of every call that could be made and lists
the calls in the order in which the lookup makes them as long as no server names
a leader.  The lookup then makes these calls up to the first that does.

Main results:

- Definition {lit}`Client.lookupOrder`: the calls of a lookup that finds no leader.
- Theorem {lit}`Client.getLeaderId_exchanges_iff`: the runs of a lookup are the
  beginnings of its order up to the first answer that names a leader.
- Theorem {lit}`leader_lookup_returns_first_live`: what a lookup returns, when it
  throws, and what it leaves of the client.
-/

namespace ReplicatedSplinterDB

open Foundation

/-! ## The order of a lookup -/

/-- A call for the leader: the server and what the call returned. -/
abbrev LeaderQuery := Int32 × Except String Int32

/-- The leader that an answer names, if it names one. -/
def liveAnswer : Except String Int32 → Option Int32
  | .error _ => none
  | .ok leaderId => if leaderId ≠ Client.noLiveLeader then some leaderId else none

/-- The outcomes of calling one server at most {lit}`todo` times, up to the first
exception. -/
def untilException (outcome : Nat → Except String Int32) : Nat → List (Except String Int32)
  | 0 => []
  | todo + 1 =>
      match outcome 0 with
      | .error what => [.error what]
      | .ok leaderId => .ok leaderId :: untilException (fun k => outcome (k + 1)) todo

/-- The calls to one server. -/
def serverQueries (outcome : Nat → Except String Int32) (numRetries : Nat) (server : Int32) :
    List LeaderQuery :=
  (untilException outcome numRetries).map (server, ·)

/-- The calls to the servers, one server after the other. -/
def queryOrder (pattern : Int32 → Nat → Except String Int32) (numRetries : Nat)
    (servers : List Int32) : List LeaderQuery :=
  servers.flatMap fun server => serverQueries (pattern server) numRetries server

/-- The first leader that is named. -/
def firstLive (order : List LeaderQuery) : Option Int32 :=
  order.findSome? fun query => liveAnswer query.2

/-- What a lookup returns: the first leader that is named, or it throws. -/
def lookupResult (order : List LeaderQuery) : Except Exception Int32 :=
  match firstLive order with
  | some leaderId => .ok leaderId
  | none => .error (.runtimeError "failed to connect to any server")

/-- The calls up to the first that names a leader. -/
def upToLive : List LeaderQuery → List LeaderQuery
  | [] => []
  | query :: rest => if (liveAnswer query.2).isSome then [query] else query :: upToLive rest

/-- Calls as exchanges of a client program. -/
def queryTrace (queries : List LeaderQuery) : List (Sigma Rpc.Answer) :=
  queries.map fun query => ⟨.leaderId query.1, query.2⟩

theorem length_untilException_le (outcome : Nat → Except String Int32) (todo : Nat) :
    (untilException outcome todo).length ≤ todo := by
  induction todo generalizing outcome with
  | zero => exact Nat.le_refl 0
  | succ todo ih =>
      unfold untilException
      split
      · exact Nat.succ_le_succ (Nat.zero_le todo)
      · exact Nat.succ_le_succ (ih _)

/-- Only the last call to a server can have failed. -/
theorem pairwise_untilException (outcome : Nat → Except String Int32) (todo : Nat) :
    (untilException outcome todo).Pairwise fun first _ => ∃ leaderId, first = .ok leaderId := by
  induction todo generalizing outcome with
  | zero => exact List.Pairwise.nil
  | succ todo ih =>
      unfold untilException
      split
      · exact List.pairwise_singleton _ _
      · rename_i leaderId _
        exact List.pairwise_cons.mpr ⟨fun _ _ => ⟨leaderId, rfl⟩, ih _⟩

theorem mem_servers_of_mem_queryOrder {pattern : Int32 → Nat → Except String Int32}
    {numRetries : Nat} {servers : List Int32} {query : LeaderQuery}
    (h : query ∈ queryOrder pattern numRetries servers) : query.1 ∈ servers := by
  rcases List.mem_flatMap.mp h with ⟨server, hserver, hquery⟩
  rcases List.mem_map.mp hquery with ⟨answer, -, rfl⟩
  exact hserver

/-- The calls go through the servers in their order, and a server is left after a
call that failed. -/
theorem pairwise_queryOrder (pattern : Int32 → Nat → Except String Int32) (numRetries : Nat)
    {servers : List Int32} (hsorted : servers.Pairwise (· < ·)) :
    (queryOrder pattern numRetries servers).Pairwise fun first second =>
      first.1 < second.1 ∨ first.1 = second.1 ∧ ∃ leaderId, first.2 = .ok leaderId := by
  unfold queryOrder
  rw [List.pairwise_flatMap]
  constructor
  · intro server _
    rw [serverQueries, List.pairwise_map]
    apply (pairwise_untilException (pattern server) numRetries).imp
    intro first _ hok
    exact .inr ⟨rfl, hok⟩
  · apply hsorted.imp
    intro server other hlt first hfirst second hsecond
    rcases List.mem_map.mp hfirst with ⟨_, -, rfl⟩
    rcases List.mem_map.mp hsecond with ⟨_, -, rfl⟩
    exact .inl hlt

/-- No server is asked more often than the retries allow. -/
theorem count_queryOrder_le (pattern : Int32 → Nat → Except String Int32) (numRetries : Nat)
    {servers : List Int32} (hdistinct : servers.Nodup) (server : Int32) :
    ((queryOrder pattern numRetries servers).map Prod.fst).count server ≤ numRetries := by
  induction servers with
  | nil => exact Nat.zero_le numRetries
  | cons other servers ih =>
      rw [List.nodup_cons] at hdistinct
      have hsplit : (queryOrder pattern numRetries (other :: servers)).map Prod.fst =
          (serverQueries (pattern other) numRetries other).map Prod.fst ++
            (queryOrder pattern numRetries servers).map Prod.fst := by
        simp only [queryOrder, List.flatMap_cons, List.map_append]
      rw [hsplit, List.count_append]
      by_cases heq : other = server
      · subst heq
        have hrest : ((queryOrder pattern numRetries servers).map Prod.fst).count other = 0 := by
          rw [List.count_eq_zero]
          intro hmem
          rcases List.mem_map.mp hmem with ⟨query, hquery, rfl⟩
          exact hdistinct.1 (mem_servers_of_mem_queryOrder hquery)
        have hown := List.count_le_length (a := other)
          (l := (serverQueries (pattern other) numRetries other).map Prod.fst)
        have hlength := length_untilException_le (pattern other) numRetries
        simp only [serverQueries, List.length_map] at hown
        rw [hrest]
        exact hown.trans hlength
      · have hown : ((serverQueries (pattern other) numRetries other).map Prod.fst).count server =
            0 := by
          rw [List.count_eq_zero]
          simp [serverQueries, Ne.symm heq]
        rw [hown, Nat.zero_add]
        exact ih hdistinct.2

theorem liveAnswer_eq_some_iff (answer : Except String Int32) (leaderId : Int32) :
    liveAnswer answer = some leaderId ↔ answer = .ok leaderId ∧ leaderId ≠ Client.noLiveLeader := by
  cases answer with
  | error what => simp [liveAnswer]
  | ok named =>
      by_cases hlive : named ≠ Client.noLiveLeader
      · simp only [liveAnswer, if_pos hlive, Option.some.injEq, Except.ok.injEq]
        constructor
        · rintro rfl
          exact ⟨rfl, hlive⟩
        · exact fun h => h.1
      · simp only [liveAnswer, if_neg hlive, Except.ok.injEq]
        constructor
        · intro h
          cases h
        · rintro ⟨rfl, h⟩
          exact absurd h hlive

theorem lookupResult_eq_ok_iff (order : List LeaderQuery) (leaderId : Int32) :
    lookupResult order = .ok leaderId ↔
      leaderId ≠ Client.noLiveLeader ∧
        ∃ earlier server later, order = earlier ++ (server, .ok leaderId) :: later ∧
          ∀ query ∈ earlier, liveAnswer query.2 = none := by
  have hfirst : lookupResult order = .ok leaderId ↔ firstLive order = some leaderId := by
    unfold lookupResult
    cases firstLive order <;> simp
  rw [hfirst, firstLive, List.findSome?_eq_some_iff]
  constructor
  · rintro ⟨earlier, ⟨server, answer⟩, later, rfl, hanswer, hearlier⟩
    rcases (liveAnswer_eq_some_iff answer leaderId).mp hanswer with ⟨rfl, hlive⟩
    exact ⟨hlive, earlier, server, later, rfl, hearlier⟩
  · rintro ⟨hlive, earlier, server, later, rfl, hearlier⟩
    have hanswer := (liveAnswer_eq_some_iff (.ok leaderId) leaderId).mpr ⟨rfl, hlive⟩
    exact ⟨earlier, (server, .ok leaderId), later, rfl, hanswer, hearlier⟩

theorem firstLive_upToLive (order : List LeaderQuery) :
    firstLive (upToLive order) = firstLive order := by
  induction order with
  | nil => rfl
  | cons query rest ih =>
      cases hlive : liveAnswer query.2 with
      | some leaderId => simp [upToLive, firstLive, hlive]
      | none =>
          simp only [firstLive] at ih
          simp [upToLive, firstLive, hlive, ih]

/-- A lookup throws exactly if none of the calls it makes names a leader. -/
theorem lookupResult_eq_error_iff (order : List LeaderQuery) :
    (∃ e, lookupResult order = .error e) ↔ ∀ query ∈ upToLive order, liveAnswer query.2 = none := by
  have hnone : (∃ e, lookupResult order = .error e) ↔ firstLive order = none := by
    unfold lookupResult
    cases firstLive order <;> simp
  rw [hnone, ← firstLive_upToLive, firstLive, List.findSome?_eq_none_iff]

theorem firstLive_append (first second : List LeaderQuery) :
    firstLive (first ++ second) = (firstLive first).or (firstLive second) :=
  List.findSome?_append

/-- A part without a leader is passed over, and one with a leader ends the calls. -/
theorem upToLive_append (first second : List LeaderQuery) :
    upToLive (first ++ second) =
      match firstLive first with
      | some _ => upToLive first
      | none => first ++ upToLive second := by
  induction first with
  | nil => rfl
  | cons query rest ih =>
      cases hlive : liveAnswer query.2 with
      | some leaderId => simp [upToLive, firstLive, hlive]
      | none =>
          have hfirst : firstLive (query :: rest) = firstLive rest := by
            simp [firstLive, hlive]
          simp only [hfirst, List.cons_append, upToLive, hlive, Option.isSome_none,
            Bool.false_eq_true, if_false, ih]
          cases firstLive rest <;> rfl

theorem upToLive_of_firstLive_eq_none {order : List LeaderQuery} (h : firstLive order = none) :
    upToLive order = order := by
  have happend := upToLive_append order []
  rw [h, List.append_nil] at happend
  exact happend.trans (List.append_nil order)

/-- A call that names a leader is the last one. -/
theorem upToLive_cons_of_live (server : Int32) {leaderId : Int32}
    (h : leaderId ≠ Client.noLiveLeader) (rest : List LeaderQuery) :
    firstLive ((server, .ok leaderId) :: rest) = some leaderId ∧
      upToLive ((server, .ok leaderId) :: rest) = [(server, .ok leaderId)] := by
  simp [firstLive, upToLive, liveAnswer, h]

/-- A call that names none is followed by the others. -/
theorem upToLive_cons_of_not_live (server : Int32) {leaderId : Int32}
    (h : ¬ leaderId ≠ Client.noLiveLeader) (rest : List LeaderQuery) :
    firstLive ((server, .ok leaderId) :: rest) = firstLive rest ∧
      upToLive ((server, .ok leaderId) :: rest) = (server, .ok leaderId) :: upToLive rest := by
  simp [firstLive, upToLive, liveAnswer, h]

/-- After an answer the server is asked again. -/
theorem serverQueries_succ {outcome : Nat → Except String Int32} {leaderId : Int32}
    (h : outcome 0 = .ok leaderId) (todo : Nat) (server : Int32) :
    serverQueries outcome (todo + 1) server =
      (server, .ok leaderId) :: serverQueries (fun k => outcome (k + 1)) todo server := by
  simp only [serverQueries, untilException, h, List.map_cons]

/-! ## The runs of a lookup -/

namespace Client

/-- Whatever the outcomes of the calls to a server are, they are made up to the
first that names a leader. -/
theorem askServer_exchanges (server : Int32) (todo : Nat) (outcome : Nat → Except String Int32) :
    (askServer server todo).Exchanges
      (queryTrace (upToLive (serverQueries outcome todo server)))
      (firstLive (serverQueries outcome todo server)) := by
  induction todo generalizing outcome with
  | zero => exact ⟨rfl, rfl⟩
  | succ todo ih =>
      cases hfirst : outcome 0 with
      | error what =>
          simp only [serverQueries, untilException, hfirst]
          exact ⟨.error what, [], rfl, rfl, rfl⟩
      | ok leaderId =>
          rw [serverQueries_succ hfirst]
          by_cases hlive : leaderId ≠ noLiveLeader
          · rcases upToLive_cons_of_live server hlive
              (serverQueries (fun k => outcome (k + 1)) todo server) with ⟨hfound, hmade⟩
            rw [hfound, hmade]
            refine ⟨.ok leaderId, [], rfl, ?_⟩
            dsimp only
            rw [if_pos hlive]
            exact ⟨rfl, rfl⟩
          · rcases upToLive_cons_of_not_live server hlive
              (serverQueries (fun k => outcome (k + 1)) todo server) with ⟨hfound, hmade⟩
            rw [hfound, hmade]
            refine ⟨.ok leaderId, _, rfl, ?_⟩
            dsimp only
            rw [if_neg hlive]
            exact ih fun k => outcome (k + 1)

/-- Every run of the calls to a server comes from outcomes of this kind. -/
theorem exists_outcome_of_askServer {server : Int32} {todo : Nat}
    {trace : List (Sigma Rpc.Answer)} {found : Option Int32}
    (h : (askServer server todo).Exchanges trace found) :
    ∃ outcome, trace = queryTrace (upToLive (serverQueries outcome todo server)) ∧
      found = firstLive (serverQueries outcome todo server) := by
  induction todo generalizing trace with
  | zero =>
      rcases h with ⟨rfl, rfl⟩
      exact ⟨fun _ => .ok noLiveLeader, rfl, rfl⟩
  | succ todo ih =>
      rcases h with ⟨answer, rest, rfl, h⟩
      cases answer with
      | error what =>
          rcases h with ⟨rfl, rfl⟩
          exact ⟨fun _ => .error what, rfl, rfl⟩
      | ok leaderId =>
          dsimp only at h
          by_cases hlive : leaderId ≠ noLiveLeader
          · rw [if_pos hlive] at h
            rcases h with ⟨rfl, rfl⟩
            rcases upToLive_cons_of_live server hlive
              (serverQueries (fun _ => .ok leaderId) todo server) with ⟨hfound, hmade⟩
            refine ⟨fun _ => .ok leaderId, ?_, ?_⟩
            · rw [serverQueries_succ rfl, hmade]
              rfl
            · rw [serverQueries_succ rfl, hfound]
          · rw [if_neg hlive] at h
            rcases ih h with ⟨outcome, rfl, rfl⟩
            rcases upToLive_cons_of_not_live server hlive
              (serverQueries outcome todo server) with ⟨hfound, hmade⟩
            refine ⟨fun
              | 0 => .ok leaderId
              | k + 1 => outcome k, ?_, ?_⟩
            · rw [serverQueries_succ rfl, hmade]
              rfl
            · rw [serverQueries_succ rfl, hfound]

/-- Whatever the outcomes of the calls are, a lookup makes them in order up to the
first that names a leader. -/
theorem askServers_exchanges (pattern : Int32 → Nat → Except String Int32) (numRetries : Nat)
    (servers : List Int32) :
    (askServers numRetries servers).Exchanges
      (queryTrace (upToLive (queryOrder pattern numRetries servers)))
      (lookupResult (queryOrder pattern numRetries servers)) := by
  induction servers with
  | nil => exact ⟨rfl, rfl⟩
  | cons server servers ih =>
      have hown := askServer_exchanges server numRetries (pattern server)
      change (Interaction.bind _ _).Exchanges
        (queryTrace (upToLive (serverQueries (pattern server) numRetries server ++
          queryOrder pattern numRetries servers)))
        (lookupResult (serverQueries (pattern server) numRetries server ++
          queryOrder pattern numRetries servers))
      rw [Interaction.exchanges_bind_iff, upToLive_append, lookupResult, firstLive_append]
      cases hfound : firstLive (serverQueries (pattern server) numRetries server) with
      | some leaderId =>
          rw [hfound] at hown
          exact ⟨_, [], _, (List.append_nil _).symm, hown, rfl, rfl⟩
      | none =>
          rw [hfound, upToLive_of_firstLive_eq_none hfound] at hown
          exact ⟨_, _, _, List.map_append, hown, ih⟩

/-- Every run of a lookup comes from outcomes of the calls. -/
theorem exists_pattern_of_askServers {numRetries : Nat} {servers : List Int32}
    (hdistinct : servers.Nodup) {trace : List (Sigma Rpc.Answer)} {r : Except Exception Int32}
    (h : (askServers numRetries servers).Exchanges trace r) :
    ∃ pattern, trace = queryTrace (upToLive (queryOrder pattern numRetries servers)) ∧
      r = lookupResult (queryOrder pattern numRetries servers) := by
  induction servers generalizing trace with
  | nil =>
      rcases h with ⟨rfl, rfl⟩
      exact ⟨fun _ _ => .ok noLiveLeader, rfl, rfl⟩
  | cons server servers ih =>
      rw [List.nodup_cons] at hdistinct
      unfold askServers at h
      rw [Interaction.exchanges_bind_iff] at h
      rcases h with ⟨first, second, mid, rfl, hfirst, hrest⟩
      rcases exists_outcome_of_askServer hfirst with ⟨outcome, rfl, hmid⟩
      cases mid with
      | some leaderId =>
          rcases hrest with ⟨rfl, rfl⟩
          refine ⟨fun _ => outcome, ?_, ?_⟩
          · simp only [queryOrder, List.flatMap_cons, upToLive_append, ← hmid, List.append_nil]
          · simp only [queryOrder, List.flatMap_cons, lookupResult, firstLive_append, ← hmid,
              Option.some_or]
      | none =>
          rcases ih hdistinct.2 hrest with ⟨pattern, rfl, rfl⟩
          -- The outcomes of this server are put in front; no later server is this one.
          have hsame : queryOrder (Function.update pattern server outcome) numRetries servers =
              queryOrder pattern numRetries servers := by
            apply List.flatMap_congr
            intro other hother
            have hne : other ≠ server := fun heq => hdistinct.1 (heq ▸ hother)
            rw [Function.update_of_ne hne]
          have hother : queryOrder (Function.update pattern server outcome) numRetries
              (server :: servers) =
              serverQueries outcome numRetries server ++ queryOrder pattern numRetries servers := by
            rw [← hsame]
            simp [queryOrder]
          refine ⟨Function.update pattern server outcome, ?_, ?_⟩
          · rw [hother, upToLive_append, ← hmid, upToLive_of_firstLive_eq_none hmid.symm]
            exact List.map_append.symm
          · have hfirstLive : firstLive (serverQueries outcome numRetries server ++
                queryOrder pattern numRetries servers) =
                firstLive (queryOrder pattern numRetries servers) := by
              rw [firstLive_append, ← hmid, Option.none_or]
            rw [hother]
            simp only [lookupResult, hfirstLive]

/-- The calls that a lookup makes as long as no server names a leader. -/
def lookupOrder (pattern : Int32 → Nat → Except String Int32) (c : Client) : List LeaderQuery :=
  queryOrder pattern c.numRetries.toNat c.clients.ids

theorem getLeaderId_exchanges_iff (c : Client) (trace : List (Sigma Rpc.Answer))
    (r : Except Exception Int32) :
    c.getLeaderId.Exchanges trace r ↔
      ∃ pattern, trace = queryTrace (upToLive (c.lookupOrder pattern)) ∧
        r = lookupResult (c.lookupOrder pattern) := by
  constructor
  · exact exists_pattern_of_askServers c.clients.nodup_ids
  · rintro ⟨pattern, rfl, rfl⟩
    exact askServers_exchanges pattern c.numRetries.toNat c.clients.ids

/-- A leader change that throws keeps the client as it is. -/
theorem tryHandleLeaderChange_error {raftRc : Int32} {c c' : Client}
    {trace : List (Sigma Rpc.Answer)} {e : Exception}
    (h : (c.tryHandleLeaderChange raftRc).Exchanges trace (.error e, c')) :
    c' = c ∧ c.getLeaderId.Exchanges trace (.error e) := by
  unfold tryHandleLeaderChange at h
  split at h
  · rw [Interaction.exchanges_bind_iff] at h
    rcases h with ⟨first, second, mid, rfl, hfirst, hrest⟩
    cases mid with
    | error e' =>
        rcases hrest with ⟨rfl, hresult⟩
        cases hresult
        rw [List.append_nil]
        exact ⟨rfl, hfirst⟩
    | ok leaderId => cases hrest.2
  · cases h.2

end Client

/-- For every client: the runs of {lit}`get_leader_id` are those in which the calls
of the lookup order are made up to the first that names a leader, whatever the
calls return.  The order goes through the connected servers by ascending
identifier, asks none more often than the retries allow and leaves a server after
an exception.  The lookup returns the first leader that is named, never the
identifier that stands for no leader, and it throws exactly if none of its calls
names one.  A leader change that throws keeps the client's leader. -/
theorem leader_lookup_returns_first_live (c : Client) :
    (∀ trace r, c.getLeaderId.Exchanges trace r ↔
      ∃ pattern, trace = queryTrace (upToLive (c.lookupOrder pattern)) ∧
        r = lookupResult (c.lookupOrder pattern)) ∧
    (∀ pattern,
      (c.lookupOrder pattern).Pairwise (fun first second =>
        first.1 < second.1 ∨ first.1 = second.1 ∧ ∃ leaderId, first.2 = .ok leaderId) ∧
      (∀ server, ((c.lookupOrder pattern).map Prod.fst).count server ≤ c.numRetries.toNat) ∧
      (∀ leaderId, lookupResult (c.lookupOrder pattern) = .ok leaderId ↔
        leaderId ≠ Client.noLiveLeader ∧
          ∃ earlier server later,
            c.lookupOrder pattern = earlier ++ (server, .ok leaderId) :: later ∧
            ∀ query ∈ earlier, liveAnswer query.2 = none) ∧
      ((∃ e, lookupResult (c.lookupOrder pattern) = .error e) ↔
        ∀ query ∈ upToLive (c.lookupOrder pattern), liveAnswer query.2 = none)) ∧
    ∀ raftRc trace e c', (c.tryHandleLeaderChange raftRc).Exchanges trace (.error e, c') →
      c'.leaderId = c.leaderId := by
  refine ⟨c.getLeaderId_exchanges_iff, ?_, ?_⟩
  · intro pattern
    refine ⟨?_, ?_, ?_, ?_⟩
    · exact pairwise_queryOrder pattern c.numRetries.toNat c.clients.sorted_ids
    · exact count_queryOrder_le pattern c.numRetries.toNat c.clients.nodup_ids
    · exact lookupResult_eq_ok_iff (c.lookupOrder pattern)
    · exact lookupResult_eq_error_iff (c.lookupOrder pattern)
  · intro raftRc trace e c' h
    rw [(Client.tryHandleLeaderChange_error h).1]

/-- A client of two servers with two retries, whose leader is the first. -/
def twoServers : Client :=
  ⟨(ServerMap.empty.emplace 2 ⟨"b", 1002⟩).emplace 1 ⟨"a", 1001⟩, [1, 2], 1, 2⟩

/-- The first server knows no leader and then fails, the second names itself; and
a leader change during which both servers fail. -/
theorem leader_lookup_returns_first_live_two :
    (∃ pattern, twoServers.lookupOrder pattern =
        [(1, .ok (-1)), (1, .error "timeout"), (2, .ok 2), (2, .ok 2)] ∧
      twoServers.getLeaderId.Exchanges
        [⟨.leaderId 1, .ok (-1)⟩, ⟨.leaderId 1, .error "timeout"⟩, ⟨.leaderId 2, .ok 2⟩]
        (.ok 2)) ∧
    ∃ c', (twoServers.tryHandleLeaderChange Client.notLeader).Exchanges
        [⟨.leaderId 1, .error "timeout"⟩, ⟨.leaderId 2, .error "timeout"⟩]
        (.error (.runtimeError "failed to connect to any server"), c') ∧
      c'.leaderId = 1 := by
  rcases leader_lookup_returns_first_live twoServers with ⟨hruns, -, hkept⟩
  constructor
  · let pattern : Int32 → Nat → Except String Int32 := fun server k =>
      if server = 2 then .ok 2 else if k = 0 then .ok (-1) else .error "timeout"
    exact ⟨pattern, rfl, (hruns _ _).mpr ⟨pattern, rfl, rfl⟩⟩
  · have hrun : (twoServers.tryHandleLeaderChange Client.notLeader).Exchanges
        [⟨.leaderId 1, .error "timeout"⟩, ⟨.leaderId 2, .error "timeout"⟩]
        (.error (.runtimeError "failed to connect to any server"), twoServers) :=
      ⟨_, _, rfl, _, _, rfl, rfl, rfl⟩
    exact ⟨twoServers, hrun, hkept _ _ _ _ hrun⟩

end ReplicatedSplinterDB
