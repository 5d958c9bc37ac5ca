import ReplicatedSplinterDB.Client.Mutation
import ReplicatedSplinterDB.Foundation.RoundRobin

/-!
# Client reads

Reads go to the connected servers in turn.  The turn is taken when the call is
made, whatever becomes of it, and no other call of the client takes one.

Main results:

- Theorem {lit}`Client.get_cases`: what a read does with the queue and where it
  goes.
- Theorem {lit}`Client.call_cases`: no other call touches the queue or sends a
  read.
- Theorem {lit}`Client.callAll_takesTurns`: the reads of a run take turns.
- Theorem {lit}`client_reads_round_robin`: the reads of every run, in which any
  other calls may stand between them.
-/

namespace ReplicatedSplinterDB

open Foundation

/-! ## Remote calls -/

/-- The two calls that each server of the client gets for its cache. -/
inductive CacheAction where
  | dump
  | clear
deriving DecidableEq, Repr

/-- All remote calls of a client. -/
inductive ClientRpc where
  | rpc (call : Rpc)
  | get (server : Int32) (key : Bytes)
  | allServers (server : Int32)
  | cache (action : CacheAction) (server : Int32)
deriving DecidableEq, Repr

/-- What a remote call returns; an error is an exception of the transport. -/
@[reducible] def ClientRpc.Answer : ClientRpc → Type
  | .rpc call => call.Answer
  | .get _ _ => Except String ReadResult
  | .allServers _ => Except String (List (Int32 × String))
  | .cache _ _ => Except String Bool

/-- A program of the client that may use all its remote calls. -/
abbrev FullProgram (ρ : Type) := Interaction ClientRpc ClientRpc.Answer ρ

/-- A program that only mutates or looks the leader up is a program of the
client. -/
def ClientProgram.full {ρ : Type} (p : ClientProgram ρ) : FullProgram ρ :=
  p.relabel ClientRpc.rpc fun _ answer => answer

namespace Client

/-! ## Calls that do not mutate -/

/-- {lit}`round_robin_read_policy::next_server`: the first server of the queue,
and the queue with this server at its back.  An empty queue has no first
server. -/
def nextServer : List Int32 → Except Exception (Int32 × List Int32)
  | [] => .error .outOfBounds
  | id :: rest => .ok (id, rest ++ [id])

/-- {lit}`client::get`.  What {lit}`find` returns is used unchecked, so a server
that is not connected ends the call with an invalid access. -/
def get (key : Bytes) (c : Client) : FullProgram (Outcome ReadResult) :=
  match nextServer c.readPolicy with
  | .error e => .ret (.error e, c)
  | .ok (id, queue) =>
      let c := { c with readPolicy := queue }
      if id ∈ c.clients.ids then
        .ask (.get id key) fun (answer : Except String ReadResult) =>
          match answer with
          | .error what => .ret (.error (.rpc what), c)
          | .ok result => .ret (.ok result, c)
      else .ret (.error .outOfBounds, c)

/-- The loop of {lit}`client::get_all_servers`: the first server that answers. -/
def firstListing : List Int32 → FullProgram (Except Exception (List (Int32 × String)))
  | [] => .ret (.error (.runtimeError "failed to connect to any server"))
  | server :: servers =>
      .ask (.allServers server) fun (answer : Except String (List (Int32 × String))) =>
        match answer with
        | .error _ => firstListing servers
        | .ok listing => .ret (.ok listing)

/-- {lit}`client::get_all_servers` -/
def getAllServers (c : Client) : FullProgram (Except Exception (List (Int32 × String))) :=
  firstListing c.clients.ids

/-- The loop of the cache calls.  A server that reports a failure only gets a
warning printed; a transport failure ends the call. -/
def cacheLoop (action : CacheAction) : List Int32 → FullProgram (Except Exception Unit)
  | [] => .ret (.ok ())
  | server :: servers =>
      .ask (.cache action server) fun (answer : Except String Bool) =>
        match answer with
        | .error what => .ret (.error (.rpc what))
        | .ok _ => cacheLoop action servers

/-- {lit}`client::trigger_cache_dumps` -/
def triggerCacheDumps (c : Client) : FullProgram (Except Exception Unit) :=
  cacheLoop .dump c.clients.ids

/-- {lit}`client::trigger_cache_clear` -/
def triggerCacheClear (c : Client) : FullProgram (Except Exception Unit) :=
  cacheLoop .clear c.clients.ids

end Client

/-! ## Runs of a client -/

/-- The public calls of a client. -/
inductive ClientCall where
  | get (key : Bytes)
  | mutation (request : Request)
  | getAllServers
  | getLeaderId
  | triggerCacheDumps
  | triggerCacheClear
deriving DecidableEq, Repr

/-- What a public call returns. -/
inductive ClientReply where
  | read (result : ReadResult)
  | mutation (result : MutationResult)
  | servers (listing : List (Int32 × String))
  | leader (id : Int32)
  | done
deriving DecidableEq, Repr

namespace Client

/-- Return the outcome of a call that leaves the client as it is. -/
def unchanged {α : Type} (c : Client) (reply : α → ClientReply)
    (p : FullProgram (Except Exception α)) : FullProgram (Outcome ClientReply) :=
  p.bind fun outcome => .ret (outcome.map reply, c)

/-- Return the outcome of a call with the client that it leaves. -/
def replied {α : Type} (reply : α → ClientReply) (p : FullProgram (Outcome α)) :
    FullProgram (Outcome ClientReply) :=
  p.bind fun (outcome, c) => .ret (outcome.map reply, c)

/-- One public call. -/
def call : ClientCall → Client → FullProgram (Outcome ClientReply)
  | .get key, c => replied .read (c.get key)
  | .mutation request, c => replied .mutation (c.perform request).full
  | .getAllServers, c => c.unchanged .servers c.getAllServers
  | .getLeaderId, c => c.unchanged .leader c.getLeaderId.full
  | .triggerCacheDumps, c => c.unchanged (fun _ => .done) c.triggerCacheDumps
  | .triggerCacheClear, c => c.unchanged (fun _ => .done) c.triggerCacheClear

/-- A sequence of public calls.  A call that throws does not end the sequence. -/
def callAll : List ClientCall → Client →
    FullProgram (List (Except Exception ClientReply) × Client)
  | [], c => .ret ([], c)
  | next :: calls, c =>
      (c.call next).bind fun (outcome, c) =>
        (callAll calls c).bind fun (outcomes, c) => .ret (outcome :: outcomes, c)

end Client

/-! ## What one call does -/

/-- The server and the key of a call that is a read. -/
def ClientRpc.read? : ClientRpc → Option (Int32 × Bytes)
  | .get server key => some (server, key)
  | _ => none

/-- The reads of a run, in the order they were sent. -/
def sentReads (trace : List (Sigma ClientRpc.Answer)) : List (Int32 × Bytes) :=
  (trace.map Sigma.fst).filterMap ClientRpc.read?

@[simp] theorem sentReads_append (first second : List (Sigma ClientRpc.Answer)) :
    sentReads (first ++ second) = sentReads first ++ sentReads second := by
  rw [sentReads, List.map_append, List.filterMap_append]
  rfl

/-- The key of a call that is a read. -/
def ClientCall.readKey? : ClientCall → Option Bytes
  | .get key => some key
  | _ => none

/-- Mutations and leader lookups send no read. -/
theorem ClientProgram.exchanges_full {ρ : Type} {p : ClientProgram ρ}
    {trace : List (Sigma ClientRpc.Answer)} {r : ρ} (h : p.full.Exchanges trace r) :
    sentReads trace = [] ∧ ∃ own, p.Exchanges own r := by
  rcases Interaction.exchanges_relabel _ _ h with ⟨own, hown, hquestions⟩
  refine ⟨?_, own, hown⟩
  rw [sentReads, hquestions, List.filterMap_map]
  apply List.filterMap_eq_nil_iff.mpr
  intro x _
  rfl

namespace Client

/-- The client has the same servers and the same queue. -/
def SameTurn (c c' : Client) : Prop :=
  c'.clients = c.clients ∧ c'.readPolicy = c.readPolicy

theorem askServers_throws (numRetries : Nat) (servers : List Int32) :
    (askServers numRetries servers).Ensures (fun _ _ => True)
      (fun found => found ≠ .error .outOfBounds) := by
  induction servers with
  | nil =>
      intro h
      cases h
  | cons server servers ih =>
      apply (Interaction.ensures_true (askServer server numRetries)).bind
      intro found _
      cases found with
      | none => exact ih
      | some leaderId =>
          intro h
          cases h

theorem tryHandleLeaderChange_sameTurn {c d : Client} (h : SameTurn c d) (raftRc : Int32) :
    (tryHandleLeaderChange raftRc d).Ensures (fun _ _ => True)
      (MayThrow (· ≠ .outOfBounds) (SameTurn c)) := by
  unfold tryHandleLeaderChange
  split
  · apply (askServers_throws d.numRetries.toNat d.clients.ids).bind
    intro found hfound
    cases found with
    | error e =>
        refine mayThrow_error ?_ h
        intro he
        exact hfound (by rw [he])
    | ok leaderId => exact mayThrow_ok true h
  · exact mayThrow_ok false h

theorem perform_sameTurn (request : Request) (c : Client) :
    (c.perform request).Ensures (fun _ _ => True) (MayThrow (· ≠ .outOfBounds) (SameTurn c)) := by
  rw [perform_eq]
  apply mutateLoop_rule _ _ _ request _ _ (show SameTurn c c from ⟨rfl, rfl⟩)
  · intro what h
    cases h
  · intro d e _ he
    unfold getLeaderHandle at he
    split at he
    · cases he
    · cases he
      intro h
      cases h
  · intro raftRc d hd
    exact tryHandleLeaderChange_sameTurn hd raftRc

theorem exchanges_firstListing {servers : List Int32} {trace : List (Sigma ClientRpc.Answer)}
    {outcome : Except Exception (List (Int32 × String))}
    (h : (firstListing servers).Exchanges trace outcome) :
    sentReads trace = [] ∧ outcome ≠ .error .outOfBounds := by
  induction servers generalizing trace with
  | nil =>
      rcases h with ⟨rfl, rfl⟩
      exact ⟨rfl, by simp⟩
  | cons server servers ih =>
      rcases h with ⟨answer, rest, rfl, h⟩
      cases answer with
      | error what =>
          rcases ih h with ⟨hreads, hthrows⟩
          exact ⟨hreads, hthrows⟩
      | ok listing =>
          rcases h with ⟨rfl, rfl⟩
          exact ⟨rfl, by simp⟩

theorem exchanges_cacheLoop {action : CacheAction} {servers : List Int32}
    {trace : List (Sigma ClientRpc.Answer)} {outcome : Except Exception Unit}
    (h : (cacheLoop action servers).Exchanges trace outcome) :
    sentReads trace = [] ∧ outcome ≠ .error .outOfBounds := by
  induction servers generalizing trace with
  | nil =>
      rcases h with ⟨rfl, rfl⟩
      exact ⟨rfl, by simp⟩
  | cons server servers ih =>
      rcases h with ⟨answer, rest, rfl, h⟩
      cases answer with
      | error what =>
          rcases h with ⟨rfl, rfl⟩
          exact ⟨rfl, by simp⟩
      | ok done =>
          rcases ih h with ⟨hreads, hthrows⟩
          exact ⟨hreads, hthrows⟩

/-- A read takes the first server of the queue, puts it at the back before the
remote call, and sends the read to it. -/
theorem get_cases {key : Bytes} {c c' : Client} {id : Int32} {rest : List Int32}
    (hqueue : c.readPolicy = id :: rest) (hid : id ∈ c.clients.ids)
    {trace : List (Sigma ClientRpc.Answer)} {outcome : Except Exception ReadResult}
    (h : (c.get key).Exchanges trace (outcome, c')) :
    sentReads trace = [(id, key)] ∧ c' = { c with readPolicy := rest ++ [id] } ∧
      outcome ≠ .error .outOfBounds := by
  unfold get at h
  rw [hqueue] at h
  dsimp only [nextServer] at h
  rw [if_pos hid] at h
  rcases h with ⟨answer, rest', rfl, h⟩
  cases answer with
  | error what =>
      rcases h with ⟨rfl, h⟩
      cases h
      exact ⟨rfl, rfl, by simp⟩
  | ok result =>
      rcases h with ⟨rfl, h⟩
      cases h
      exact ⟨rfl, rfl, by simp⟩

theorem exchanges_unchanged {α : Type} {c c' : Client} {reply : α → ClientReply}
    {p : FullProgram (Except Exception α)} {trace : List (Sigma ClientRpc.Answer)}
    {outcome : Except Exception ClientReply}
    (h : (c.unchanged reply p).Exchanges trace (outcome, c')) :
    ∃ result, p.Exchanges trace result ∧ outcome = result.map reply ∧ c' = c := by
  rcases Interaction.exchanges_bind_iff.mp h with ⟨first, second, result, rfl, hp, rfl, hret⟩
  cases hret
  rw [List.append_nil]
  exact ⟨result, hp, rfl, rfl⟩

theorem exchanges_replied {α : Type} {c' : Client} {reply : α → ClientReply}
    {p : FullProgram (Outcome α)} {trace : List (Sigma ClientRpc.Answer)}
    {outcome : Except Exception ClientReply} (h : (replied reply p).Exchanges trace (outcome, c')) :
    ∃ result, p.Exchanges trace (result, c') ∧ outcome = result.map reply := by
  rcases Interaction.exchanges_bind_iff.mp h with
    ⟨first, second, ⟨result, d⟩, rfl, hp, rfl, hret⟩
  cases hret
  rw [List.append_nil]
  exact ⟨result, hp, rfl⟩

theorem map_ne_outOfBounds {α : Type} {reply : α → ClientReply} {result : Except Exception α}
    (h : result ≠ .error .outOfBounds) : result.map reply ≠ .error .outOfBounds := by
  cases result with
  | error e =>
      intro he
      cases he
      exact h rfl
  | ok a =>
      intro he
      cases he

/-- Every call other than a read leaves the queue alone and sends no read. -/
theorem call_cases {next : ClientCall} (hnext : next.readKey? = none) {c c' : Client}
    {trace : List (Sigma ClientRpc.Answer)} {outcome : Except Exception ClientReply}
    (h : (c.call next).Exchanges trace (outcome, c')) :
    sentReads trace = [] ∧ SameTurn c c' ∧ outcome ≠ .error .outOfBounds := by
  cases next with
  | get key => cases hnext
  | mutation request =>
      rcases exchanges_replied h with ⟨result, hp, rfl⟩
      rcases ClientProgram.exchanges_full hp with ⟨hreads, own, hown⟩
      rcases (perform_sameTurn request c).result hown (by simp) with ⟨hthrows, hsame⟩
      refine ⟨hreads, hsame, map_ne_outOfBounds ?_⟩
      intro he
      exact hthrows _ he rfl
  | getAllServers =>
      rcases exchanges_unchanged h with ⟨result, hp, rfl, rfl⟩
      rcases exchanges_firstListing hp with ⟨hreads, hthrows⟩
      exact ⟨hreads, ⟨rfl, rfl⟩, map_ne_outOfBounds hthrows⟩
  | getLeaderId =>
      rcases exchanges_unchanged h with ⟨result, hp, rfl, rfl⟩
      rcases ClientProgram.exchanges_full hp with ⟨hreads, own, hown⟩
      have hthrows := (askServers_throws _ _).result hown (by simp)
      exact ⟨hreads, ⟨rfl, rfl⟩, map_ne_outOfBounds hthrows⟩
  | triggerCacheDumps =>
      rcases exchanges_unchanged h with ⟨result, hp, rfl, rfl⟩
      rcases exchanges_cacheLoop hp with ⟨hreads, hthrows⟩
      exact ⟨hreads, ⟨rfl, rfl⟩, map_ne_outOfBounds hthrows⟩
  | triggerCacheClear =>
      rcases exchanges_unchanged h with ⟨result, hp, rfl, rfl⟩
      rcases exchanges_cacheLoop hp with ⟨hreads, hthrows⟩
      exact ⟨hreads, ⟨rfl, rfl⟩, map_ne_outOfBounds hthrows⟩

/-! ## What a run does -/

/-- The queue is not empty and holds only connected servers. -/
def Routable (c : Client) : Prop :=
  c.readPolicy ≠ [] ∧ ∀ id ∈ c.readPolicy, id ∈ c.clients.ids

/-- The keys that the calls read, in order. -/
def readKeys (calls : List ClientCall) : List Bytes := calls.filterMap ClientCall.readKey?

theorem Routable.of_rotate {c c' : Client} {n : Nat} (hc : c.Routable)
    (hclients : c'.clients = c.clients) (hqueue : c'.readPolicy = c.readPolicy.rotate n) :
    c'.Routable := by
  rw [Routable, hclients, hqueue]
  refine ⟨?_, ?_⟩
  · rw [Ne, List.rotate_eq_nil_iff]
    exact hc.1
  · intro id hid
    exact hc.2 id (List.mem_rotate.mp hid)

/-- Reads that go to the servers whose turn it is, and a queue that is rotated by
their number. -/
def TakesTurns (c : Client) (keys : List Bytes) (reads : List (Int32 × Bytes)) (c' : Client) :
    Prop :=
  reads = (turns c.readPolicy keys.length).zip keys ∧ c'.clients = c.clients ∧
    c'.readPolicy = c.readPolicy.rotate keys.length

theorem TakesTurns.append {c d c' : Client} {keys keys' : List Bytes}
    {reads reads' : List (Int32 × Bytes)} (hc : c.Routable) (h : TakesTurns c keys reads d)
    (h' : TakesTurns d keys' reads' c') :
    TakesTurns c (keys ++ keys') (reads ++ reads') c' := by
  rcases h with ⟨rfl, hclients, hqueue⟩
  rcases h' with ⟨rfl, hclients', hqueue'⟩
  refine ⟨?_, hclients'.trans hclients, ?_⟩
  · rw [List.length_append, turns_add, hqueue, List.zip_append (length_turns hc.1 _)]
  · rw [hqueue', hqueue, List.rotate_rotate, List.length_append]

/-- A call that is a read takes one turn, and any other call takes none. -/
theorem call_takesTurns {next : ClientCall} {c c' : Client} (hc : c.Routable)
    {trace : List (Sigma ClientRpc.Answer)} {outcome : Except Exception ClientReply}
    (h : (c.call next).Exchanges trace (outcome, c')) :
    TakesTurns c (readKeys [next]) (sentReads trace) c' ∧ outcome ≠ .error .outOfBounds := by
  cases next with
  | get key =>
      rcases exchanges_replied h with ⟨result, hp, rfl⟩
      cases hturn : c.readPolicy with
      | nil => exact absurd hturn hc.1
      | cons id others =>
          have hid : id ∈ c.clients.ids := hc.2 id (by simp [hturn])
          rcases get_cases hturn hid hp with ⟨hreads, rfl, hthrows⟩
          refine ⟨⟨?_, rfl, ?_⟩, map_ne_outOfBounds hthrows⟩
          · rw [hreads, hturn]
            rfl
          · have hone := List.rotate_cons_succ others id 0
            rw [List.rotate_zero] at hone
            rw [hturn]
            exact hone.symm
  | _ =>
      rcases call_cases rfl h with ⟨hreads, ⟨hclients, hqueue⟩, hthrows⟩
      refine ⟨⟨hreads, hclients, ?_⟩, hthrows⟩
      rw [hqueue]
      exact (List.rotate_zero _).symm

/-- The reads of a run take their turns one after the other, and no call of it
makes an invalid access. -/
theorem callAll_takesTurns {calls : List ClientCall} {c c' : Client} (hc : c.Routable)
    {trace : List (Sigma ClientRpc.Answer)} {outcomes : List (Except Exception ClientReply)}
    (h : (c.callAll calls).Exchanges trace (outcomes, c')) :
    TakesTurns c (readKeys calls) (sentReads trace) c' ∧
      ∀ outcome ∈ outcomes, outcome ≠ .error .outOfBounds := by
  induction calls generalizing c trace outcomes with
  | nil =>
      rcases h with ⟨rfl, h⟩
      cases h
      refine ⟨⟨rfl, rfl, ?_⟩, by simp⟩
      exact (List.rotate_zero _).symm
  | cons next calls ih =>
      rcases Interaction.exchanges_bind_iff.mp h with
        ⟨first, second, ⟨outcome, d⟩, rfl, hcall, hrest⟩
      rcases Interaction.exchanges_bind_iff.mp hrest with
        ⟨rest, last, ⟨rests, d'⟩, rfl, hcalls, rfl, hret⟩
      cases hret
      rcases call_takesTurns hc hcall with ⟨hturn, hthrows⟩
      rcases ih (hc.of_rotate hturn.2.1 hturn.2.2) hcalls with ⟨hturns, hlast⟩
      have hkeys : readKeys (next :: calls) = readKeys [next] ++ readKeys calls := by
        rw [readKeys, readKeys, readKeys, ← List.filterMap_append, List.singleton_append]
      rw [hkeys, sentReads_append, List.append_nil]
      exact ⟨hturn.append hc hturns, List.forall_mem_cons.mpr ⟨hthrows, hlast⟩⟩

end Client

theorem Client.readPolicy_new {contact : FirstContact} {connects : Int32 → Endpoint → Bool}
    {numRetries : UInt16} {c : Client} (hnew : Client.new contact connects numRetries = .ok c) :
    c.readPolicy = c.clients.ids := by
  rcases Client.new_eq_ok hnew with ⟨srvs, leader, clients, -, -, rfl⟩
  rfl

/-- For every client that the constructor returns and that is connected to at
least one server, every sequence of calls and every answer of the servers: the
{lit}`j`-th read goes to the server at position {lit}`j` modulo the number of
servers, in ascending order of the identifiers; the queue is the list of the
identifiers rotated by the number of reads, so that none is lost or repeated; in
every window of consecutive reads two servers differ by at most one; and every
read goes to a connected server, so no call makes an invalid access. -/
theorem client_reads_round_robin (contact : FirstContact) (connects : Int32 → Endpoint → Bool)
    (numRetries : UInt16) (c : Client) (hnew : Client.new contact connects numRetries = .ok c)
    (hservers : c.clients.ids ≠ []) (calls : List ClientCall)
    (trace : List (Sigma ClientRpc.Answer)) (outcomes : List (Except Exception ClientReply))
    (c' : Client) (hrun : (c.callAll calls).Exchanges trace (outcomes, c')) :
    c.clients.ids.Pairwise (· < ·) ∧
      (sentReads trace).map Prod.snd = Client.readKeys calls ∧
      (∀ j < (Client.readKeys calls).length,
        ((sentReads trace).map Prod.fst)[j]? = c.clients.ids[j % c.clients.ids.length]?) ∧
      c'.clients = c.clients ∧
      c'.readPolicy = c.clients.ids.rotate (Client.readKeys calls).length ∧
      c'.readPolicy.Perm c.clients.ids ∧ c'.readPolicy.Nodup ∧
      (∀ first size, ∀ a ∈ c.clients.ids, ∀ b ∈ c.clients.ids,
        ((((sentReads trace).map Prod.fst).drop first).take size).count a ≤
          ((((sentReads trace).map Prod.fst).drop first).take size).count b + 1) ∧
      (∀ read ∈ sentReads trace, read.1 ∈ c.clients.ids) ∧
      ∀ outcome ∈ outcomes, outcome ≠ .error .outOfBounds := by
  have hpolicy := Client.readPolicy_new hnew
  have hroutable : c.Routable := by
    rw [Client.Routable, hpolicy]
    exact ⟨hservers, fun _ h => h⟩
  rcases Client.callAll_takesTurns hroutable hrun with ⟨⟨hreads, hclients, hqueue⟩, hthrows⟩
  rw [hpolicy] at hreads hqueue
  have hlength := length_turns hservers (Client.readKeys calls).length
  have hturns : (sentReads trace).map Prod.fst =
      turns c.clients.ids (Client.readKeys calls).length := by
    rw [hreads, List.map_fst_zip (Nat.le_of_eq hlength)]
  refine ⟨c.clients.sorted_ids, ?_, ?_, hclients, hqueue, ?_, ?_, ?_, ?_, hthrows⟩
  · rw [hreads, List.map_snd_zip (Nat.le_of_eq hlength.symm)]
  · intro j hj
    rw [hturns, getElem?_turns _ hj]
  · rw [hqueue]
    exact List.rotate_perm _ _
  · rw [hqueue, List.nodup_rotate]
    exact c.clients.nodup_ids
  · intro first size a ha b hb
    rw [hturns, take_drop_turns]
    exact count_turns_le (List.nodup_rotate.mpr c.clients.nodup_ids)
      (List.mem_rotate.mpr ha) (List.mem_rotate.mpr hb) _
  · intro read hread
    have hmem : read.1 ∈ (sentReads trace).map Prod.fst := List.mem_map_of_mem hread
    rw [hturns] at hmem
    exact mem_of_mem_turns hmem

/-- Four reads among three servers, with a leader lookup between them and a
server that fails: the first server has its second turn. -/
theorem client_reads_round_robin_three :
    ∃ c c' trace outcomes, Client.new threeServers (fun _ _ => true) 3 = .ok c ∧
      (c.callAll [.get [107], .getLeaderId, .get [108], .get [107], .get [109]]).Exchanges trace
        (outcomes, c') ∧
      (∀ j < 4, ((sentReads trace).map Prod.fst)[j]? = c.clients.ids[j % c.clients.ids.length]?) ∧
      c'.readPolicy = c.clients.ids.rotate 4 ∧
      ∀ outcome ∈ outcomes, outcome ≠ .error .outOfBounds := by
  have hnew : Client.new threeServers (fun _ _ => true) 3 =
      .ok ⟨((ServerMap.empty.emplace 1 ⟨"a", 1001⟩).emplace 2 ⟨"b", 1002⟩).emplace 3
        ⟨"c", 1003⟩, [1, 2, 3], 1, 3⟩ := rfl
  have hrun : (Client.callAll [.get [107], .getLeaderId, .get [108], .get [107], .get [109]]
      ⟨((ServerMap.empty.emplace 1 ⟨"a", 1001⟩).emplace 2 ⟨"b", 1002⟩).emplace 3
        ⟨"c", 1003⟩, [1, 2, 3], 1, 3⟩).Exchanges
      [⟨.get 1 [107], .ok ([118], 0)⟩, ⟨.rpc (.leaderId 1), .ok 1⟩,
        ⟨.get 2 [108], .error "timeout"⟩, ⟨.get 3 [107], .ok ([118], 0)⟩,
        ⟨.get 1 [109], .ok ([], 1)⟩]
      ([.ok (.read ([118], 0)), .ok (.leader 1), .error (.rpc "timeout"), .ok (.read ([118], 0)),
          .ok (.read ([], 1))],
        ⟨((ServerMap.empty.emplace 1 ⟨"a", 1001⟩).emplace 2 ⟨"b", 1002⟩).emplace 3
          ⟨"c", 1003⟩, [2, 3, 1], 1, 3⟩) :=
    ⟨_, _, rfl, _, _, rfl, _, _, rfl, _, _, rfl, _, _, rfl, rfl, rfl⟩
  rcases client_reads_round_robin threeServers (fun _ _ => true) 3 _ hnew (by decide) _ _ _ _ hrun
    with ⟨-, -, hturns, -, hqueue, -, -, -, -, hthrows⟩
  exact ⟨_, _, _, _, hnew, hrun, hturns, hqueue, hthrows⟩

end ReplicatedSplinterDB
