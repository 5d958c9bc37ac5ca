import ReplicatedSplinterDB.Client.Console

/-!
# What a console session sends and reports

A session of the command line client is given any bytes.  Whatever they are, each
remote call that it makes was asked for by the line whose command is running, and
what it reports for a command is what the servers have answered to it.

Main results:

- Theorem {lit}`handleCommand_cases`: which call of the client library a command
  makes.
- Theorem {lit}`handleCommand_exchanges`: what a command sends, and how its report
  relates to the answers.
- Theorem {lit}`session_reports_what_servers_answered`: the same over whole
  sessions, with the lines that the commands come from and the exit status.
-/

namespace ReplicatedSplinterDB

open Foundation

/-! ## Commands -/

/-- The first token, in lower case. -/
def commandName (tokens : List Bytes) : Bytes := (tokens.headD []).map toLower

/-- The mutation that the tokens of a line ask for. -/
def commandRequest : List Bytes → Option Request
  | name :: key :: value :: _ =>
      if name.map toLower = textBytes "put" then some (.put key value)
      else if name.map toLower = textBytes "update" then some (.update key value)
      else if name.map toLower = textBytes "delete" then some (.delete key)
      else none
  | [name, key] => if name.map toLower = textBytes "delete" then some (.delete key) else none
  | _ => none

/-- The key whose value the tokens of a line ask for. -/
def commandKey : List Bytes → Option Bytes
  | name :: key :: _ => if name.map toLower = textBytes "get" then some key else none
  | _ => none

/-- The remote call serves the command: mutations and reads are exactly those that
were typed, and everything else belongs to a command that needs it. -/
def ServesCommand (tokens : List Bytes) : ClientRpc → Prop
  | .rpc (.mutation _ request) => commandRequest tokens = some request
  | .rpc (.leaderId _) =>
      (commandRequest tokens).isSome = true ∨ commandName tokens = textBytes "ls"
  | .get _ key => commandKey tokens = some key
  | .allServers _ => commandName tokens = textBytes "ls"
  | .cache .dump _ => commandName tokens = textBytes "dumpcache"
  | .cache .clear _ => commandName tokens = textBytes "clearcache"

/-- The commands of the console. -/
inductive ConsoleCommand (tokens : List Bytes) (c : Client) :
    FullProgram (Outcome CommandResult) → Prop where
  | mutation (request : Request) (h : commandRequest tokens = some request) :
      ConsoleCommand tokens c (mutationCommand (c.perform request))
  | get (key : Bytes) (h : commandKey tokens = some key) :
      ConsoleCommand tokens c ((c.get key).bind fun (outcome, c) =>
        .ret (outcome.map handleReadResult, c))
  | ls (h : commandName tokens = textBytes "ls") : ConsoleCommand tokens c (listServers c)
  | dumpCache (h : commandName tokens = textBytes "dumpcache") :
      ConsoleCommand tokens c (cacheCommand c c.triggerCacheDumps)
  | clearCache (h : commandName tokens = textBytes "clearcache") :
      ConsoleCommand tokens c (cacheCommand c c.triggerCacheClear)
  | atOnce (result : CommandResult) (hrequest : commandRequest tokens = none)
      (hkey : commandKey tokens = none) : ConsoleCommand tokens c (.ret (.ok result, c))

/-- The mutations and the read have names of their own. -/
theorem commandKey_of_request {tokens : List Bytes} {request : Request}
    (h : commandRequest tokens = some request) : commandKey tokens = none := by
  have hget : ∀ name : Bytes, name.map toLower = textBytes "get" →
      name.map toLower ≠ textBytes "put" ∧ name.map toLower ≠ textBytes "update" ∧
        name.map toLower ≠ textBytes "delete" := by
    intro name hname
    rw [hname]
    decide
  rcases tokens with _ | ⟨name, _ | ⟨key, _ | ⟨value, rest⟩⟩⟩
  · rfl
  · rfl
  · by_cases hname : name.map toLower = textBytes "get"
    · simp [commandRequest, hget name hname] at h
    · simp [commandKey, hname]
  · by_cases hname : name.map toLower = textBytes "get"
    · simp [commandRequest, hget name hname] at h
    · simp [commandKey, hname]

/-- Only four names ask for a mutation or a read. -/
theorem commandRequest_of_name (tokens : List Bytes)
    (h : ∀ name ∈ ["put", "update", "delete", "get"], commandName tokens ≠ textBytes name) :
    commandRequest tokens = none ∧ commandKey tokens = none := by
  have hput := h "put" (by simp)
  have hupdate := h "update" (by simp)
  have hdelete := h "delete" (by simp)
  have hget := h "get" (by simp)
  rcases tokens with _ | ⟨name, _ | ⟨key, _ | ⟨value, rest⟩⟩⟩
  · exact ⟨rfl, rfl⟩
  · exact ⟨rfl, rfl⟩
  · simp only [commandName, List.headD_cons] at hdelete hget
    simp [commandRequest, commandKey, hdelete, hget]
  · simp only [commandName, List.headD_cons] at hput hupdate hdelete hget
    simp [commandRequest, commandKey, hput, hupdate, hdelete, hget]

/-- Which call of the client library the tokens of a line lead to. -/
theorem handleCommand_cases (tokens : List Bytes) (c : Client) :
    ConsoleCommand tokens c (handleCommand tokens c) := by
  rcases tokens with _ | ⟨name, args⟩
  · exact .atOnce (false, []) rfl rfl
  simp only [handleCommand]
  split
  · rename_i h
    rcases args with _ | ⟨key, _ | ⟨value, rest⟩⟩
    · simp at h
    · simp at h
    · exact .mutation (.put key value) (by simp [commandRequest, h.1])
  rename_i hput
  split
  · rename_i h
    rcases args with _ | ⟨key, _ | ⟨value, rest⟩⟩
    · simp at h
    · simp at h
    · have hne : textBytes "update" ≠ textBytes "put" := by decide
      exact .mutation (.update key value) (by simp [commandRequest, h.1, hne])
  rename_i hupdate
  split
  · rename_i h
    rcases args with _ | ⟨key, _ | ⟨value, rest⟩⟩
    · simp at h
    · exact .mutation (.delete key) (by simp [commandRequest, h.1])
    · have hne : textBytes "delete" ≠ textBytes "put" ∧
          textBytes "delete" ≠ textBytes "update" := by decide
      exact .mutation (.delete key) (by simp [commandRequest, h.1, hne])
  rename_i hdelete
  split
  · rename_i h
    rcases args with _ | ⟨key, rest⟩
    · simp at h
    · exact .get key (by simp [commandKey, h.1])
  rename_i hget
  split
  · rename_i h
    exact .ls h
  split
  · rename_i h
    exact .dumpCache h
  split
  · rename_i h
    exact .clearCache h
  -- what is left returns without a remote call
  have hrequest : commandRequest (name :: args) = none := by
    rcases args with _ | ⟨key, _ | ⟨value, rest⟩⟩
    · rfl
    · simp at hdelete
      simp [commandRequest, hdelete]
    · simp at hput hupdate hdelete
      simp [commandRequest, hput, hupdate, hdelete]
  have hkey : commandKey (name :: args) = none := by
    rcases args with _ | ⟨key, rest⟩
    · rfl
    · simp at hget
      simp [commandKey, hget]
  split
  · exact .atOnce _ hrequest hkey
  · exact .atOnce _ hrequest hkey

/-! ## What a command sends -/

/-- The exchanges of a program that only mutates or looks the leader up, among all
remote calls of the client. -/
def fullTrace (trace : List (Sigma Rpc.Answer)) : List (Sigma ClientRpc.Answer) :=
  trace.map fun x => ⟨.rpc x.1, x.2⟩

theorem ClientProgram.exchanges_full_eq {ρ : Type} {p : ClientProgram ρ}
    {trace : List (Sigma ClientRpc.Answer)} {r : ρ} (h : p.full.Exchanges trace r) :
    ∃ own, p.Exchanges own r ∧ trace = fullTrace own := by
  induction p generalizing trace with
  | ret result =>
      rcases h with ⟨rfl, rfl⟩
      exact ⟨[], ⟨rfl, rfl⟩, rfl⟩
  | ask question rest ih =>
      rcases h with ⟨answer, trace', rfl, hrest⟩
      rcases ih answer hrest with ⟨own, hown, rfl⟩
      exact ⟨⟨question, answer⟩ :: own, ⟨answer, own, rfl, hown⟩, rfl⟩

/-- The mutations among the remote calls of the client, with their replies. -/
def sentMutation : Sigma ClientRpc.Answer → Option SentRequest
  | ⟨.rpc (.mutation server request), reply⟩ => some ⟨server, request, reply⟩
  | _ => none

theorem filterMap_sentMutation_fullTrace (trace : List (Sigma Rpc.Answer)) :
    (fullTrace trace).filterMap sentMutation = sentRequests trace := by
  induction trace with
  | nil => rfl
  | cons exchange trace ih =>
      rcases exchange with ⟨rpc, answer⟩
      cases rpc with
      | mutation server request =>
          rw [sentRequests_mutation, ← ih]
          rfl
      | leaderId server =>
          rw [sentRequests_leaderId, ← ih]
          rfl

/-- What a call returns when this is its last reply. -/
def MutationResult.returned (reply : MutationResult) : MutationResult :=
  if reply.raftCode = Client.weirdCase then { reply with raftCode := 0 } else reply

/-- A report is justified by the exchanges of its command.  A mutation reports, in
its status and in what it prints, the reply to its last request, and it is
reported as done if and only if this reply counts as success; a read reports the
one answer it got. -/
structure Justified (tokens : List Bytes) (part : List (Sigma ClientRpc.Answer))
    (result : CommandResult) : Prop where
  mutation : ∀ request, commandRequest tokens = some request → ∃ server reply,
    (part.filterMap sentMutation).getLast? = some ⟨server, request, .ok reply⟩ ∧
      result = handleMutationResult reply.returned ∧
      (result.1 = true ↔ reply.CountsAsSuccess)
  read : ∀ key, commandKey tokens = some key → ∃ server answer,
    part = [⟨.get server key, .ok answer⟩] ∧ result = handleReadResult answer

/-- A loop that returns and has sent a request returns its last reply.  The
induction is on the rounds left: a round that does not end the loop leaves its
reply to the next one. -/
theorem Client.mutateLoop_returned {request : Request} {todo : Nat} {prev r : MutationResult}
    {c c' : Client} {trace : List (Sigma Rpc.Answer)}
    (h : (Client.mutateLoop request todo prev c).Exchanges trace (.ok r, c')) :
    (todo = 0 ∧ trace = [] ∧ r = prev) ∨ ∃ server reply,
      (sentRequests trace).getLast? = some ⟨server, request, .ok reply⟩ ∧
        r = reply.returned := by
  induction todo generalizing prev c trace with
  | zero =>
      rcases h with ⟨rfl, h⟩
      cases h
      exact .inl ⟨rfl, rfl, rfl⟩
  | succ todo ih =>
      right
      rcases Client.mutateLoop_succ_cases h with ⟨server, reply, rest, rfl, hround⟩
      rcases hround with ⟨rfl, haccepted, rfl⟩ | ⟨rfl, hweird, rfl⟩ |
        ⟨-, hother, lookup, after, changed, mid, rfl, hlookup, hrest⟩
      · refine ⟨server, r, rfl, ?_⟩
        rw [MutationResult.returned, if_neg]
        rw [haccepted]
        decide
      · refine ⟨server, reply, rfl, ?_⟩
        rw [MutationResult.returned, if_pos hweird]
      · have hnone := sentRequests_tryHandleLeaderChange hlookup
        rcases ih hrest with ⟨-, rfl, rfl⟩ | ⟨server', reply', hlast, hreturned⟩
        · refine ⟨server, r, ?_, ?_⟩
          · rw [sentRequests_mutation, List.append_nil, hnone]
            rfl
          · rw [MutationResult.returned, if_neg hother]
        · refine ⟨server', reply', ?_, hreturned⟩
          simp [hnone, List.getLast?_cons, hlast]

/-- A reply counts as success if and only if the call then returns one. -/
theorem isSuccess_returned (reply : MutationResult) :
    isSuccess reply.returned = true ↔ reply.CountsAsSuccess := by
  rw [isSuccess_iff, MutationResult.CountsAsSuccess, MutationResult.returned]
  by_cases hweird : reply.raftCode = Client.weirdCase
  · simp [hweird]
  · simp [hweird]

theorem handleMutationResult_fst (result : MutationResult) :
    (handleMutationResult result).1 = isSuccess result := by
  unfold handleMutationResult
  by_cases hraft : result.raftCode = 0
  · by_cases hspl : result.splCode = 0
    · simp [hraft, hspl, isSuccess]
    · simp [hraft, hspl, isSuccess]
  · simp [hraft, isSuccess]

theorem serves_fullTrace {tokens : List Bytes} {request : Request}
    (hrequest : commandRequest tokens = some request) {ρ : Type} {p : ClientProgram ρ}
    (hp : Sends request p) {own : List (Sigma Rpc.Answer)} {r : ρ} (hown : p.Exchanges own r) :
    ∀ x ∈ fullTrace own, ServesCommand tokens x.1 := by
  intro x hx
  rcases List.mem_map.mp hx with ⟨⟨rpc, answer⟩, hmem, rfl⟩
  have hask := hp.of_exchanges hown _ hmem
  cases rpc with
  | mutation server other =>
      rw [hask server other rfl]
      exact hrequest
  | leaderId server => exact .inl (by rw [hrequest]; rfl)

theorem asks_firstListing {tokens : List Bytes} (hname : commandName tokens = textBytes "ls")
    (servers : List Int32) : (Client.firstListing servers).Asks (ServesCommand tokens) := by
  induction servers with
  | nil => trivial
  | cons server servers ih =>
      refine ⟨hname, ?_⟩
      intro answer
      cases answer with
      | error what => exact ih
      | ok listing => trivial

theorem asks_cacheLoop {tokens : List Bytes} {action : CacheAction}
    (hserves : ∀ server, ServesCommand tokens (.cache action server)) (servers : List Int32) :
    (Client.cacheLoop action servers).Asks (ServesCommand tokens) := by
  induction servers with
  | nil => trivial
  | cons server servers ih =>
      refine ⟨hserves server, ?_⟩
      intro answer
      cases answer with
      | error what => trivial
      | ok done => exact ih

/-- A leader lookup sends nothing but leader queries. -/
theorem serves_getLeaderId {tokens : List Bytes} (hname : commandName tokens = textBytes "ls")
    {c : Client} {own : List (Sigma Rpc.Answer)} {r : Except Exception Int32}
    (hown : c.getLeaderId.Exchanges own r) : ∀ x ∈ fullTrace own, ServesCommand tokens x.1 := by
  intro x hx
  rcases List.mem_map.mp hx with ⟨⟨rpc, answer⟩, hmem, rfl⟩
  cases rpc with
  | mutation server other =>
      have hcount := (Client.askServers_atMost c.numRetries.toNat c.clients.ids).countP_le hown
      have hpos : 0 < own.countP fun x => x.1.isMutation :=
        List.countP_pos_iff.mpr ⟨_, hmem, rfl⟩
      omega
  | leaderId server => exact .inr hname

/-- A read sends one request, or none if it cannot route it. -/
theorem exchanges_get {key : Bytes} {c c' : Client} {trace : List (Sigma ClientRpc.Answer)}
    {outcome : Except Exception ReadResult} (h : (c.get key).Exchanges trace (outcome, c')) :
    (trace = [] ∧ c'.numRetries = c.numRetries ∧ ∃ e, outcome = .error e) ∨
      ∃ (server : Int32) (answer : Except String ReadResult),
        trace = [⟨.get server key, answer⟩] ∧ c'.numRetries = c.numRetries ∧
          outcome = answer.mapError .rpc := by
  unfold Client.get at h
  cases hnext : Client.nextServer c.readPolicy with
  | error e =>
      rw [hnext] at h
      rcases h with ⟨rfl, h⟩
      cases h
      exact .inl ⟨rfl, rfl, e, rfl⟩
  | ok turn =>
      rcases turn with ⟨id, queue⟩
      rw [hnext] at h
      dsimp only at h
      split at h
      · rcases h with ⟨answer, rest, rfl, h⟩
        cases answer with
        | error what =>
            rcases h with ⟨rfl, h⟩
            cases h
            exact .inr ⟨id, .error what, rfl, rfl, rfl⟩
        | ok value =>
            rcases h with ⟨rfl, h⟩
            cases h
            exact .inr ⟨id, .ok value, rfl, rfl, rfl⟩
      · rcases h with ⟨rfl, h⟩
        cases h
        exact .inl ⟨rfl, rfl, _, rfl⟩

/-- What the listing of the servers sends. -/
theorem exchanges_listServers {tokens : List Bytes}
    (hname : commandName tokens = textBytes "ls") {c c' : Client}
    {trace : List (Sigma ClientRpc.Answer)} {outcome : Except Exception CommandResult}
    (h : (listServers c).Exchanges trace (outcome, c')) :
    (∀ x ∈ trace, ServesCommand tokens x.1) ∧ c'.numRetries = c.numRetries := by
  rcases Interaction.exchanges_bind_iff.mp h with ⟨first, second, listed, rfl, hlist, hrest⟩
  have hfirst := (asks_firstListing hname c.clients.ids).of_exchanges hlist
  cases listed with
  | error e =>
      rcases hrest with ⟨rfl, hret⟩
      cases hret
      rw [List.append_nil]
      exact ⟨hfirst, rfl⟩
  | ok srvs =>
      rcases Interaction.exchanges_bind_iff.mp hrest with ⟨third, fourth, found, rfl, hlookup, hend⟩
      rcases ClientProgram.exchanges_full_eq hlookup with ⟨own, hown, rfl⟩
      have hsecond := serves_getLeaderId hname hown
      have hdone : fourth = [] ∧ c' = c := by
        cases found with
        | error e =>
            rcases hend with ⟨rfl, hret⟩
            cases hret
            exact ⟨rfl, rfl⟩
        | ok leaderId =>
            rcases hend with ⟨rfl, hret⟩
            cases hret
            exact ⟨rfl, rfl⟩
      rcases hdone with ⟨rfl, rfl⟩
      rw [List.append_nil]
      exact ⟨List.forall_mem_append.mpr ⟨hfirst, hsecond⟩, rfl⟩

/-- What a call on all caches sends. -/
theorem exchanges_cacheCommand {tokens : List Bytes} {action : CacheAction}
    (hserves : ∀ server, ServesCommand tokens (.cache action server)) {c c' : Client}
    {trace : List (Sigma ClientRpc.Answer)} {outcome : Except Exception CommandResult}
    (h : (cacheCommand c (Client.cacheLoop action c.clients.ids)).Exchanges trace (outcome, c')) :
    (∀ x ∈ trace, ServesCommand tokens x.1) ∧ c'.numRetries = c.numRetries := by
  rcases Interaction.exchanges_bind_iff.mp h with ⟨first, second, swept, rfl, hsweep, rfl, hret⟩
  cases hret
  rw [List.append_nil]
  exact ⟨(asks_cacheLoop hserves c.clients.ids).of_exchanges hsweep, rfl⟩

/-- What a mutation sends, and what its report says. -/
theorem exchanges_mutationCommand {tokens : List Bytes} {request : Request}
    (hrequest : commandRequest tokens = some request) {c c' : Client}
    {trace : List (Sigma ClientRpc.Answer)} {outcome : Except Exception CommandResult}
    (h : (mutationCommand (c.perform request)).Exchanges trace (outcome, c')) :
    (∀ x ∈ trace, ServesCommand tokens x.1) ∧ c'.numRetries = c.numRetries ∧
      (0 < c.numRetries.toNat → ∀ result, outcome = .ok result →
        Justified tokens trace result) := by
  rcases Interaction.exchanges_bind_iff.mp h with
    ⟨first, second, ⟨returned, d⟩, rfl, hperform, rfl, hret⟩
  cases hret
  rw [List.append_nil] at *
  rcases ClientProgram.exchanges_full_eq hperform with ⟨own, hown, rfl⟩
  refine ⟨serves_fullTrace hrequest (sends_perform request c) hown,
    ((Client.perform_keeps (P := fun d => d.numRetries = c.numRetries) (fun _ _ h => h)
      request rfl).result hown fun _ _ => trivial).2, ?_⟩
  intro hretries result hresult
  cases returned with
  | error e => cases hresult
  | ok r =>
      cases hresult
      refine ⟨?_, ?_⟩
      · intro request' hrequest'
        rw [hrequest] at hrequest'
        cases hrequest'
        rw [Client.perform_eq] at hown
        rcases Client.mutateLoop_returned hown with ⟨hzero, -, -⟩ | ⟨server, reply, hlast, rfl⟩
        · omega
        · refine ⟨server, reply, ?_, rfl, ?_⟩
          · rw [filterMap_sentMutation_fullTrace]
            exact hlast
          · rw [handleMutationResult_fst]
            exact isSuccess_returned reply
      · intro key hkey
        rw [commandKey_of_request hrequest] at hkey
        cases hkey

/-- What a read sends, and what its report says. -/
theorem exchanges_readCommand {tokens : List Bytes} {key : Bytes}
    (hkey : commandKey tokens = some key) {c c' : Client}
    {trace : List (Sigma ClientRpc.Answer)} {outcome : Except Exception CommandResult}
    (h : ((c.get key).bind fun (outcome, c) => .ret (outcome.map handleReadResult, c)).Exchanges
      trace (outcome, c')) :
    (∀ x ∈ trace, ServesCommand tokens x.1) ∧ c'.numRetries = c.numRetries ∧
      ∀ result, outcome = .ok result → Justified tokens trace result := by
  rcases Interaction.exchanges_bind_iff.mp h with
    ⟨first, second, ⟨returned, d⟩, rfl, hget, rfl, hret⟩
  cases hret
  rw [List.append_nil] at *
  rcases exchanges_get hget with ⟨rfl, hretries, herror⟩ | ⟨server, answer, rfl, hretries, hanswer⟩
  · refine ⟨by simp, hretries, ?_⟩
    intro result hresult
    rcases herror with ⟨e, rfl⟩
    cases hresult
  · refine ⟨?_, hretries, ?_⟩
    · intro x hx
      rw [List.mem_singleton] at hx
      subst hx
      exact hkey
    · intro result hresult
      subst hanswer
      cases answer with
      | error what => cases hresult
      | ok value =>
          cases hresult
          refine ⟨?_, ?_⟩
          · intro request hrequest
            rw [commandKey_of_request hrequest] at hkey
            cases hkey
          · intro key' hkey'
            rw [hkey] at hkey'
            cases hkey'
            exact ⟨server, value, rfl, rfl⟩

/-- Every run of a command: its remote calls serve it, it keeps the number of
retries, and its report is justified. -/
theorem handleCommand_exchanges {tokens : List Bytes} {c c' : Client}
    {part : List (Sigma ClientRpc.Answer)} {outcome : Except Exception CommandResult}
    (h : (handleCommand tokens c).Exchanges part (outcome, c')) :
    (∀ x ∈ part, ServesCommand tokens x.1) ∧ c'.numRetries = c.numRetries ∧
      (0 < c.numRetries.toNat → ∀ result, outcome = .ok result →
        Justified tokens part result) := by
  have hcommand := handleCommand_cases tokens c
  generalize handleCommand tokens c = program at h hcommand
  -- a command that is neither a mutation nor a read has nothing to justify
  have hother : commandRequest tokens = none → commandKey tokens = none →
      ∀ result, Justified tokens part result := by
    intro hrequest hkey result
    refine ⟨?_, ?_⟩
    · intro request hsome
      rw [hrequest] at hsome
      cases hsome
    · intro key hsome
      rw [hkey] at hsome
      cases hsome
  cases hcommand with
  | mutation request hrequest => exact exchanges_mutationCommand hrequest h
  | get key hkey =>
      have hread := exchanges_readCommand hkey h
      exact ⟨hread.1, hread.2.1, fun _ => hread.2.2⟩
  | ls hname =>
      have hnone := commandRequest_of_name tokens (by rw [hname]; decide)
      have hlisted := exchanges_listServers hname h
      exact ⟨hlisted.1, hlisted.2, fun _ result _ => hother hnone.1 hnone.2 result⟩
  | dumpCache hname =>
      have hnone := commandRequest_of_name tokens (by rw [hname]; decide)
      have hswept := exchanges_cacheCommand (fun server => show ServesCommand tokens
        (.cache .dump server) from hname) h
      exact ⟨hswept.1, hswept.2, fun _ result _ => hother hnone.1 hnone.2 result⟩
  | clearCache hname =>
      have hnone := commandRequest_of_name tokens (by rw [hname]; decide)
      have hswept := exchanges_cacheCommand (fun server => show ServesCommand tokens
        (.cache .clear server) from hname) h
      exact ⟨hswept.1, hswept.2, fun _ result _ => hother hnone.1 hnone.2 result⟩
  | atOnce result hrequest hkey =>
      rcases h with ⟨rfl, h⟩
      cases h
      exact ⟨by simp, rfl, fun _ result _ => hother hrequest hkey result⟩

/-! ## Any input -/

/-- The lines of what is typed. -/
def inputLines (input : Bytes) : List Bytes := if input = [] then [] else input.splitOn newline

/-- The tokens of a line that may hold a terminator: what stands behind it is not
looked at. -/
def lineTokens (line : Bytes) : List Bytes := tokensOf (line.takeWhile (· ≠ 0))

theorem getlineLoop_eq_some {room : Nat} {stored input line rest : Bytes}
    (h : getlineLoop room stored input = some (line, rest)) :
    ∃ piece, line = stored ++ piece ∧ newline ∉ piece ∧
      (input = piece ++ newline :: rest ∨ (input = piece ∧ rest = [])) := by
  induction input generalizing room stored with
  | nil =>
      rw [getlineLoop] at h
      split at h
      · cases h
      · cases h
        exact ⟨[], by simp, by simp, .inr ⟨rfl, rfl⟩⟩
  | cons b input ih =>
      rw [getlineLoop] at h
      split at h
      · rename_i hnewline
        cases h
        exact ⟨[], by simp, by simp, .inl (by rw [hnewline]; rfl)⟩
      · rename_i hother
        split at h
        · cases h
        · rcases ih h with ⟨piece, rfl, hpiece, hinput⟩
          refine ⟨b :: piece, by simp, ?_, ?_⟩
          · rw [List.mem_cons, not_or]
            exact ⟨fun heq => hother heq.symm, hpiece⟩
          · rcases hinput with rfl | ⟨rfl, rfl⟩
            · exact .inl rfl
            · exact .inr ⟨rfl, rfl⟩

/-- A line that was read is the first line of the input, and the rest of the
input holds the others. -/
theorem inputLines_of_getline {size : Nat} {input line rest : Bytes}
    (h : getline size input = some (line, rest)) :
    line :: inputLines rest <+: inputLines input := by
  rcases getlineLoop_eq_some h with ⟨piece, rfl, hpiece, rfl | ⟨rfl, rfl⟩⟩
  · have hlines : inputLines (line ++ newline :: rest) = line :: rest.splitOn newline := by
      rw [inputLines, if_neg (by simp), List.splitOn_append_cons_self_of_not_mem hpiece]
    rw [hlines, inputLines]
    apply List.cons_prefix_cons.mpr
    refine ⟨rfl, ?_⟩
    split
    · exact List.nil_prefix
    · exact List.prefix_refl _
  · have hne : input ≠ [] := by
      intro hnil
      subst hnil
      cases h
    rw [inputLines, inputLines, if_pos rfl, if_neg hne,
      List.splitOn_eq_singleton hpiece]

/-- The first terminator in memory is in the line or right behind it. -/
theorem exists_behind_terminator (line tail : Bytes) :
    ∃ behind, line ++ 0 :: tail = line.takeWhile (· ≠ 0) ++ 0 :: behind := by
  induction line with
  | nil => exact ⟨tail, rfl⟩
  | cons b line ih =>
      by_cases hb : b = 0
      · subst hb
        exact ⟨line ++ 0 :: tail, rfl⟩
      · rcases ih with ⟨behind, hbehind⟩
        refine ⟨behind, ?_⟩
        rw [List.takeWhile_cons_of_pos (by simpa using hb), List.cons_append, hbehind]
        rfl

theorem tokenize_storeLine_any (buffer line : Bytes) :
    tokenize (storeLine buffer line) blank = .ok (lineTokens line) := by
  have hcut : 0 ∉ line.takeWhile (· ≠ 0) := by
    intro hmem
    have hne := List.mem_takeWhile_imp hmem
    simp at hne
  rcases exists_behind_terminator line (buffer.drop (line.length + 1)) with ⟨behind, hbehind⟩
  rw [storeLine, hbehind]
  exact tokenize_eq_runs hcut behind

/-- One round of the session: it ends without a command, or it runs the command
of the first line. -/
theorem session_cases {input buffer : Bytes} {rc : Int32} {c : Client}
    {trace : List (Sigma ClientRpc.Answer)} {result : SessionResult}
    (h : (session input buffer rc c).Exchanges trace result) :
    (trace = [] ∧ result.handled = [] ∧ result.rc = rc) ∨
      ∃ line rest, rest.length < input.length ∧ line :: inputLines rest <+: inputLines input ∧
        ((handleCommand (lineTokens line) c).bind (afterCommand (lineTokens line) rc
          fun rc c => session rest (storeLine buffer line) rc c)).Exchanges trace result := by
  rw [session] at h
  split at h
  · rcases h with ⟨rfl, rfl⟩
    exact .inl ⟨rfl, rfl, rfl⟩
  · rename_i line rest hread
    dsimp only at h
    rw [tokenize_storeLine_any] at h
    cases htokens : lineTokens line with
    | nil =>
        rw [htokens] at h
        rcases h with ⟨rfl, rfl⟩
        exact .inl ⟨rfl, rfl, rfl⟩
    | cons first more =>
        rw [htokens] at h
        dsimp only at h
        split at h
        · rcases h with ⟨rfl, rfl⟩
          exact .inl ⟨rfl, rfl, rfl⟩
        · have hlength := length_of_getlineLoop hread
          rw [List.length_nil, Nat.zero_add] at hlength
          refine .inr ⟨line, rest, hlength, inputLines_of_getline hread, ?_⟩
          rw [htokens]
          exact h

/-- The status of the program after these commands: each command that returns
sets it. -/
def statusAfter (rc : Int32) (handled : List (List Bytes × Except Exception CommandResult)) :
    Int32 :=
  handled.foldl
    (fun rc command =>
      match command.2 with
      | .ok result => CommandResult.status result
      | .error _ => rc) rc

/-- Each command has its part of the exchanges, which serve it and justify its
report. -/
def Reports (retries : UInt16) (handled : List (List Bytes × Except Exception CommandResult))
    (parts : List (List (Sigma ClientRpc.Answer))) : Prop :=
  List.Forall₂ (fun (command : List Bytes × Except Exception CommandResult) part =>
    (∀ x ∈ part, ServesCommand command.1 x.1) ∧
      (0 < retries.toNat → ∀ report, command.2 = .ok report →
        Justified command.1 part report)) handled parts

/-- Every run of a session, by induction on the length of the input. -/
theorem session_spec (n : Nat) {input buffer : Bytes} (hn : input.length < n) {rc : Int32}
    {c : Client} {trace : List (Sigma ClientRpc.Answer)} {result : SessionResult}
    (hrun : (session input buffer rc c).Exchanges trace result) :
    result.handled.map Prod.fst <+: (inputLines input).map lineTokens ∧
      (∃ parts, trace = parts.flatten ∧ Reports c.numRetries result.handled parts) ∧
      result.rc = statusAfter rc result.handled := by
  induction n generalizing input buffer rc c trace result with
  | zero => omega
  | succ n ih =>
      rcases session_cases hrun with ⟨rfl, hnone, hrc⟩ | ⟨line, rest, hshorter, hlines, hround⟩
      · rw [hnone]
        exact ⟨List.nil_prefix, ⟨[], rfl, .nil⟩, hrc⟩
      · rcases Interaction.exchanges_bind_iff.mp hround with
          ⟨part, later, ⟨outcome, c'⟩, rfl, hcommand, hafter⟩
        rcases handleCommand_exchanges hcommand with ⟨hserves, hretries, hjustified⟩
        have hfirst : [lineTokens line] <+: (inputLines input).map lineTokens := by
          refine List.IsPrefix.trans ?_ (hlines.map lineTokens)
          exact List.cons_prefix_cons.mpr ⟨rfl, List.nil_prefix⟩
        cases outcome with
        | error e =>
            rcases hafter with ⟨rfl, rfl⟩
            exact ⟨hfirst, ⟨[part], by simp, .cons ⟨hserves, hjustified⟩ .nil⟩, rfl⟩
        | ok report =>
            rcases Interaction.exchanges_bind_iff.mp hafter with
              ⟨third, fourth, tail, rfl, hnext, rfl, rfl⟩
            rcases ih (by omega) hnext with ⟨htail, ⟨parts, rfl, hparts⟩, hrc⟩
            rw [hretries] at hparts
            refine ⟨?_, ⟨part :: parts, by simp, .cons ⟨hserves, hjustified⟩ hparts⟩, hrc⟩
            refine List.IsPrefix.trans ?_ (hlines.map lineTokens)
            exact List.cons_prefix_cons.mpr ⟨rfl, htail⟩

/-- For every client, every input, be it text or not, and every behaviour of the
servers: the commands that a session runs come from its first lines, in order, one
command a line; the remote calls of the session are those of its commands, one
command after the other, each of them asked for by its line, with the key and the
value that stand there; if calls are tried at least once, a mutation that does not
throw prints and returns what belongs to the reply to its last request, and is
reported as done if and only if that reply counts as success, and a read that does
not throw prints and returns the one answer it got; and a session that does not
throw returns the status of its last command. -/
theorem session_reports_what_servers_answered {input buffer : Bytes} {rc : Int32} {c : Client}
    {trace : List (Sigma ClientRpc.Answer)} {result : SessionResult}
    (hrun : (session input buffer rc c).Exchanges trace result) :
    result.handled.map Prod.fst <+: (inputLines input).map lineTokens ∧
      (∃ parts, trace = parts.flatten ∧ Reports c.numRetries result.handled parts) ∧
      ∀ status, result.status = .ok status → status = statusAfter rc result.handled := by
  rcases session_spec (input.length + 1) (Nat.lt_succ_self _) hrun with ⟨hlines, hparts, hrc⟩
  refine ⟨hlines, hparts, ?_⟩
  intro status hstatus
  rw [← hrc]
  rw [SessionResult.status] at hstatus
  split at hstatus
  · exact (Except.ok.inj hstatus).symm
  · exact (Except.ok.inj hstatus).symm
  · cases hstatus
  · cases hstatus
  · cases hstatus

/-- A session of one put, which the storage refuses: the refusal is printed, nothing
is reported as done, and the program returns a failure. -/
theorem session_reports_refused_put :
    ∃ trace result, (session (typed [textBytes "put k v"]) [] 0 oneServer).Exchanges trace result ∧
      result.status = .ok 1 ∧
      result.handled.map Prod.snd = [.ok (false, [textBytes "put failed, rc=3"])] ∧
      (∃ parts, trace = parts.flatten ∧
        Reports oneServer.numRetries result.handled parts) ∧
      statusAfter 0 result.handled = 1 := by
  have htokens : tokensOf (textBytes "put k v") =
      [textBytes "put", textBytes "k", textBytes "v"] := by decide
  have hsession : (session (typed [textBytes "put k v"]) [] 0 oneServer).Exchanges
      [⟨.rpc (.mutation 1 (.put (textBytes "k") (textBytes "v"))), .ok ⟨3, 0, "refused"⟩⟩]
      ⟨[([textBytes "put", textBytes "k", textBytes "v"],
        .ok (false, [textBytes "put failed, rc=3"]))], .noLine, 1⟩ := by
    rw [typed_cons, session_of_dispatchable (by decide) (by decide) ⟨by decide, by decide⟩
      (by decide), htokens]
    apply Interaction.exchanges_bind_iff.mpr
    refine ⟨[_], [], (.ok (false, [textBytes "put failed, rc=3"]), oneServer), rfl, ?_, ?_⟩
    · exact ⟨.ok ⟨3, 0, "refused"⟩, [], rfl, rfl, rfl⟩
    · apply Interaction.exchanges_bind_iff.mpr
      refine ⟨[], [], ⟨[], .noLine, 1⟩, rfl, ?_, rfl, rfl⟩
      change (session (typed []) _ 1 oneServer).Exchanges [] _
      rw [session]
      exact ⟨rfl, rfl⟩
  rcases session_reports_what_servers_answered hsession with ⟨-, hparts, hstatus⟩
  exact ⟨_, _, hsession, rfl, rfl, hparts, (hstatus 1 rfl).symm⟩

end ReplicatedSplinterDB
