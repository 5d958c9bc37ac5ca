import Mathlib.Data.List.TakeWhile
import ReplicatedSplinterDB.Client.Connection
import ReplicatedSplinterDB.Foundation.Interaction

/-!
# Cluster membership

A replica publishes the texts of its two endpoints in its server configuration,
and sends the same texts when it joins a cluster.  Clients get them from the list
of all servers, and a joining server gets the text of its seed from the command
line; both split such a text at its first colon.

A text is a list of characters here, one for each byte of the program's string.

Main results:

- Theorem {lit}`stoi_toDigits`: reading a printed number gives the number.
- Theorem {lit}`parseEndpoint_endpointText`: parsing a published text gives what it
  was made from.
- Theorem {lit}`Membership.connectAll_eq_ok`: a client can connect with every list of
  servers that a cluster publishes.
- Theorem {lit}`published_endpoints_round_trip`: the round trip for both texts, for
  the constructor of a client and for joining.
-/

namespace ReplicatedSplinterDB

open Foundation

/-! ## Publishing endpoints -/

/-- The text of an endpoint: the address, a colon and the port in decimal. -/
def endpointText (addr : String) (port : UInt16) : String :=
  addr ++ ":" ++ toString port.toNat

/-- The members of {lit}`replica_config` that identify a replica. -/
structure ReplicaConfig where
  serverId : Int32 := 0
  raftPort : UInt16 := 25000
  clientPort : UInt16 := 25001
  addr : String := "localhost"
deriving DecidableEq, Repr

/-- What Raft keeps of a server: its identifier, the endpoint that other servers
use and an auxiliary text, which holds the endpoint that clients use. -/
structure SrvConfig where
  id : Int32
  endpoint : String
  aux : String
deriving DecidableEq, Repr

/-- The server configuration that the constructor of {lit}`replica` hands to its
state manager. -/
def newReplica (config : ReplicaConfig) : Except Exception SrvConfig :=
  let raftEndpoint := endpointText config.addr config.raftPort
  let clientEndpoint := endpointText config.addr config.clientPort
  if config.serverId = 0 then .error (.rejected "server_id must be set")
  else .ok ⟨config.serverId, raftEndpoint, clientEndpoint⟩

/-- {lit}`replica::add_server`: the configuration that is added for a server that
asks to join. -/
def addServer (serverId : Int32) (raftEndpoint clientEndpoint : String) : SrvConfig :=
  ⟨serverId, raftEndpoint, clientEndpoint⟩

/-- The answer to {lit}`RPC_GET_ALL_SERVERS`. -/
def allServersReply (configs : List SrvConfig) : List (Int32 × String) :=
  configs.map fun srv => (srv.id, srv.aux)

/-! ## Joining -/

/-- {lit}`RPC_JOIN_REPLICA_GROUP`, with the server that it is sent to. -/
inductive JoinRpc where
  | join (server : Endpoint) (serverId : Int32) (raftEndpoint clientEndpoint : String)
deriving DecidableEq, Repr

/-- A return code and a message, or an exception of the transport. -/
@[reducible] def JoinRpc.Answer : JoinRpc → Type
  | .join _ _ _ _ => Except String (Int32 × String)

/-- {lit}`try_join_cluster`.  It parses its seed in the way in which clients parse
endpoints, down to the message about the port. -/
def tryJoinCluster (seed : String) (cfg : ReplicaConfig) :
    Interaction JoinRpc JoinRpc.Answer (Except Exception Unit) :=
  match parseEndpoint seed with
  | .error e => .ret (.error e)
  | .ok server =>
      .ask (.join server cfg.serverId (endpointText cfg.addr cfg.raftPort)
          (endpointText cfg.addr cfg.clientPort)) fun (answer : Except String (Int32 × String)) =>
        match answer with
        | .error what => .ret (.error (.rpc what))
        | .ok (rc, _) => if rc ≠ 0 then .ret (.error (.exit 1)) else .ret (.ok ())

/-! ## Parsing what was printed -/

theorem digitsValue_toDigits (n : Nat) : digitsValue (Nat.toDigits 10 n) = n := by
  have hfold : digitsValue (Nat.toDigits 10 n) = Nat.ofDigitChars 10 (Nat.toDigits 10 n) 0 := by
    rw [Nat.ofDigitChars_eq_foldl]
    simp only [digitsValue, Nat.mul_comm]
    rfl
  rw [hfold, Nat.ofDigitChars_ten_toDigits]

/-- A digit is neither a blank nor a sign. -/
theorem toNat_of_isDigit {c : Char} (h : c.isDigit = true) : 48 ≤ c.toNat ∧ c.toNat ≤ 57 := by
  simp only [Char.isDigit, Bool.and_eq_true, decide_eq_true_eq, ge_iff_le, UInt32.le_iff_toNat_le]
    at h
  exact h

theorem not_isSpace_of_isDigit {c : Char} (h : c.isDigit = true) : isSpace c = false := by
  have hrange := toNat_of_isDigit h
  have hblank : c ≠ ' ' := by
    rintro rfl
    exact absurd hrange.1 (by decide)
  simp only [isSpace, Bool.or_eq_false_iff, beq_eq_false_iff_ne, Bool.and_eq_false_iff,
    decide_eq_false_iff_not]
  exact ⟨hblank, .inr (by omega)⟩

/-- A text of digits is read as the number that it denotes: it has no blank to
skip and no sign, and all of it is read. -/
theorem leadingNumber_of_isDigit {digits : List Char} (hne : digits ≠ [])
    (hdigits : ∀ c ∈ digits, c.isDigit = true) :
    leadingNumber digits = some (digitsValue digits : Int) := by
  cases digits with
  | nil => exact absurd rfl hne
  | cons c rest =>
      have hc := hdigits c List.mem_cons_self
      have hrange := toNat_of_isDigit hc
      have hblanks : (c :: rest).dropWhile isSpace = c :: rest :=
        List.dropWhile_cons_of_neg (by simp [not_isSpace_of_isDigit hc])
      have hall : (c :: rest).takeWhile Char.isDigit = c :: rest :=
        List.takeWhile_eq_self_iff.mpr hdigits
      have hsign : c ≠ '-' ∧ c ≠ '+' := by
        constructor
        · rintro rfl
          exact absurd hrange.1 (by decide)
        · rintro rfl
          exact absurd hrange.1 (by decide)
      unfold leadingNumber
      dsimp only
      rw [hblanks]
      split
      · rename_i hhead
        exact absurd (List.cons.inj hhead).1 hsign.1
      · rename_i hhead
        exact absurd (List.cons.inj hhead).1 hsign.2
      · rw [hall, if_neg (List.cons_ne_nil c rest), if_neg Bool.false_ne_true]

theorem leadingNumber_toDigits (n : Nat) : leadingNumber (Nat.toDigits 10 n) = some (n : Int) := by
  have hread := leadingNumber_of_isDigit (Nat.toDigits_ne_nil (b := 10) (n := n))
    (fun c hc => Nat.isDigit_of_mem_toDigits (by decide) (by decide) hc)
  rwa [digitsValue_toDigits n] at hread

theorem stoi_toDigits {n : Nat} (h : n < 2 ^ 31) : stoi (Nat.toDigits 10 n) = .ok (n : Int) := by
  have hbound : ¬ ((n : Int) < -2 ^ 31 ∨ 2 ^ 31 ≤ (n : Int)) := by omega
  simp only [stoi, leadingNumber_toDigits, if_neg hbound]

/-- An endpoint text without a second colon in its address is split where it was
put together. -/
theorem parseEndpoint_endpointText {addr : String} (haddr : ':' ∉ addr.toList) {port : UInt16}
    (hport : 1 ≤ port.toNat) : parseEndpoint (endpointText addr port) = .ok ⟨addr, port⟩ := by
  have hlist : (endpointText addr port).toList =
      addr.toList ++ ':' :: Nat.toDigits 10 port.toNat := by
    simp [endpointText, Nat.toString_eq_repr, Nat.toList_repr]
  have hbefore : ∀ c ∈ addr.toList, (decide (c ≠ ':')) = true := by
    intro c hc
    rw [decide_eq_true_eq]
    rintro rfl
    exact haddr hc
  have hhost : (endpointText addr port).toList.takeWhile (· ≠ ':') = addr.toList := by
    rw [hlist, List.takeWhile_append_of_pos hbefore]
    simp
  have hafter : afterColon (endpointText addr port).toList = Nat.toDigits 10 port.toNat := by
    rw [afterColon, hlist, List.dropWhile_append_of_pos hbefore]
    simp
  have hsize := port.toNat_lt
  have hrange : ¬ (1 > (port.toNat : Int) ∨ (port.toNat : Int) > 65535) := by omega
  unfold parseEndpoint
  dsimp only
  rw [hhost, hafter, stoi_toDigits (by omega)]
  dsimp only
  rw [if_neg hrange]
  simp

theorem endpointText_injective {addr addr' : String} (haddr : ':' ∉ addr.toList)
    (haddr' : ':' ∉ addr'.toList) {port port' : UInt16} (hport : 1 ≤ port.toNat)
    (hport' : 1 ≤ port'.toNat) (h : endpointText addr port = endpointText addr' port') :
    addr = addr' ∧ port = port' := by
  have hparse := parseEndpoint_endpointText haddr hport
  rw [h, parseEndpoint_endpointText haddr' hport'] at hparse
  cases hparse
  exact ⟨rfl, rfl⟩

/-! ## What clients make of a cluster -/

/-- The address has no colon and the ports are not zero. -/
def ReplicaConfig.Valid (cfg : ReplicaConfig) : Prop :=
  ':' ∉ cfg.addr.toList ∧ 1 ≤ cfg.raftPort.toNat ∧ 1 ≤ cfg.clientPort.toNat

/-- The endpoint at which clients reach the server. -/
def ReplicaConfig.clientEndpoint (cfg : ReplicaConfig) : Endpoint := ⟨cfg.addr, cfg.clientPort⟩

/-- One round of the constructor's loop, on a text that a server published. -/
theorem connectAll_endpointText {addr : String} (haddr : ':' ∉ addr.toList) {port : UInt16}
    (hport : 1 ≤ port.toNat) (connects : Int32 → Endpoint → Bool) (srvId : Int32)
    (srvs : List (Int32 × String)) (m : ServerMap) :
    connectAll connects ((srvId, endpointText addr port) :: srvs) m =
      connectAll connects srvs
        (if connects srvId ⟨addr, port⟩ then m.emplace srvId ⟨addr, port⟩ else m) := by
  rw [connectAll, parseEndpoint_endpointText haddr hport]
  dsimp only
  split
  · rfl
  · rfl

/-- A client that is told of one server, by a text that it published, is connected to
its address and port, or to nobody if the server cannot be reached. -/
theorem new_endpointText {addr : String} (haddr : ':' ∉ addr.toList) {port : UInt16}
    (hport : 1 ≤ port.toNat) (connects : Int32 → Endpoint → Bool) (srvId leader : Int32)
    (numRetries : UInt16) :
    ∃ c, Client.new ⟨.ok (), .ok "pong", .ok [(srvId, endpointText addr port)], .ok leader⟩
        connects numRetries = .ok c ∧
      c.clients.entries =
        if connects srvId ⟨addr, port⟩ then [(srvId, ⟨addr, port⟩)] else [] := by
  have hconnected := connectAll_endpointText haddr hport connects srvId [] .empty
  refine ⟨_, Client.new_of_connectAll hconnected leader numRetries, ?_⟩
  dsimp only
  split
  · rfl
  · rfl

/-- What a joining server sends in every run. -/
theorem exchanges_tryJoinCluster {seed : String} {cfg : ReplicaConfig}
    {trace : List (Sigma JoinRpc.Answer)} {result : Except Exception Unit}
    (h : (tryJoinCluster seed cfg).Exchanges trace result) :
    (trace = [] ∧ ∃ e, parseEndpoint seed = .error e ∧ result = .error e) ∨
      ∃ server answer, parseEndpoint seed = .ok server ∧
        trace = [⟨.join server cfg.serverId (endpointText cfg.addr cfg.raftPort)
          (endpointText cfg.addr cfg.clientPort), answer⟩] := by
  unfold tryJoinCluster at h
  cases hseed : parseEndpoint seed with
  | error e =>
      rw [hseed] at h
      rcases h with ⟨rfl, rfl⟩
      exact .inl ⟨rfl, e, rfl, rfl⟩
  | ok server =>
      rw [hseed] at h
      rcases h with ⟨answer, rest, rfl, h⟩
      refine .inr ⟨server, answer, rfl, ?_⟩
      cases answer with
      | error what =>
          rcases h with ⟨rfl, -⟩
          rfl
      | ok reply =>
          dsimp only at h
          split at h
          · rcases h with ⟨rfl, -⟩
            rfl
          · rcases h with ⟨rfl, -⟩
            rfl

/-- The configurations that a cluster holds: one server founds it, and servers
that send their endpoints to one of its servers are added. -/
inductive Membership : List ReplicaConfig → List SrvConfig → Prop where
  | found {cfg : ReplicaConfig} {srv : SrvConfig} (hnew : newReplica cfg = .ok srv) :
      Membership [cfg] [srv]
  | join {cfgs : List ReplicaConfig} {members : List SrvConfig} (h : Membership cfgs members)
      {cfg : ReplicaConfig} {seed : String} {server : Endpoint} {serverId : Int32}
      {raftEndpoint clientEndpoint : String} {answer : Except String (Int32 × String)}
      {result : Except Exception Unit}
      (hjoin : (tryJoinCluster seed cfg).Exchanges
        [⟨.join server serverId raftEndpoint clientEndpoint, answer⟩] result) :
      Membership (cfgs ++ [cfg]) (members ++ [addServer serverId raftEndpoint clientEndpoint])

/-- The answer that clients get lists each server with the text of its client
endpoint. -/
theorem Membership.allServersReply_eq {cfgs : List ReplicaConfig} {members : List SrvConfig}
    (h : Membership cfgs members) :
    allServersReply members =
      cfgs.map fun cfg => (cfg.serverId, endpointText cfg.addr cfg.clientPort) := by
  induction h with
  | found hnew =>
      unfold newReplica at hnew
      dsimp only at hnew
      split at hnew
      · cases hnew
      · cases hnew
        rfl
  | join h hjoin ih =>
      rcases exchanges_tryJoinCluster hjoin with ⟨hnone, -⟩ | ⟨server', answer', -, hsent⟩
      · cases hnone
      · cases hsent
        rw [allServersReply, List.map_append, List.map_append]
        exact congrArg (· ++ _) ih

/-- A client that gets its list from a cluster of valid servers is connected to
those that it can reach, each at the address and the port of its configuration,
and the constructor's loop does not throw. -/
theorem Membership.connectAll_eq_ok {cfgs : List ReplicaConfig} {members : List SrvConfig}
    (h : Membership cfgs members) (hvalid : ∀ cfg ∈ cfgs, cfg.Valid)
    (connects : Int32 → Endpoint → Bool) (m : ServerMap) :
    connectAll connects (allServersReply members) m =
      .ok ((cfgs.filter fun cfg => connects cfg.serverId cfg.clientEndpoint).foldl
        (fun m cfg => m.emplace cfg.serverId cfg.clientEndpoint) m) := by
  rw [h.allServersReply_eq]
  clear h
  induction cfgs generalizing m with
  | nil => rfl
  | cons cfg cfgs ih =>
      rcases hvalid cfg List.mem_cons_self with ⟨haddr, -, hport⟩
      have hrest : ∀ other ∈ cfgs, other.Valid := fun other hother =>
        hvalid other (List.mem_cons_of_mem cfg hother)
      have hendpoint : cfg.clientEndpoint = ⟨cfg.addr, cfg.clientPort⟩ := rfl
      rw [List.map_cons, connectAll_endpointText haddr hport, ih hrest, ← hendpoint]
      by_cases hconnects : connects cfg.serverId cfg.clientEndpoint = true
      · rw [if_pos hconnects, List.filter_cons, if_pos hconnects, List.foldl_cons]
      · rw [if_neg hconnects, List.filter_cons, if_neg hconnects]

/-- For every address without a colon and every port from 1 to 65535: a replica
with this address and port publishes, and sends when it joins, texts that the
constructor of a client parses to exactly this address and port, without an
exception, so that a client that is told of it is constructed and is connected to
that address and port, if it can be reached; a joining server whose seed is such a
text sends its message to exactly this address and port; and no other address and
port have the same text. -/
theorem published_endpoints_round_trip (addr : String) (haddr : ':' ∉ addr.toList) (port : UInt16)
    (hport : 1 ≤ port.toNat) :
    (∀ cfg srv, cfg.addr = addr → newReplica cfg = .ok srv →
      (cfg.raftPort = port → parseEndpoint srv.endpoint = .ok ⟨addr, port⟩) ∧
      (cfg.clientPort = port → parseEndpoint srv.aux = .ok ⟨addr, port⟩ ∧
        (∀ connects leader numRetries, ∃ c,
          Client.new ⟨.ok (), .ok "pong", .ok [(srv.id, srv.aux)], .ok leader⟩ connects
            numRetries = .ok c ∧
          c.clients.entries =
            if connects srv.id ⟨addr, port⟩ then [(srv.id, ⟨addr, port⟩)] else []) ∧
        ∀ connects srvs m, connectAll connects ((srv.id, srv.aux) :: srvs) m =
          connectAll connects srvs
            (if connects srv.id ⟨addr, port⟩ then m.emplace srv.id ⟨addr, port⟩ else m))) ∧
    (∀ cfg seed server serverId raftEndpoint clientEndpoint answer trace result,
      cfg.addr = addr → (tryJoinCluster seed cfg).Exchanges trace result →
      ⟨.join server serverId raftEndpoint clientEndpoint, answer⟩ ∈ trace →
      (cfg.raftPort = port → parseEndpoint raftEndpoint = .ok ⟨addr, port⟩) ∧
      (cfg.clientPort = port → parseEndpoint clientEndpoint = .ok ⟨addr, port⟩ ∧
        ∀ connects leader numRetries, ∃ c,
          Client.new ⟨.ok (), .ok "pong", .ok [(serverId, clientEndpoint)], .ok leader⟩ connects
            numRetries = .ok c ∧
          c.clients.entries =
            if connects serverId ⟨addr, port⟩ then [(serverId, ⟨addr, port⟩)] else [])) ∧
    (∀ cfg trace result,
      (tryJoinCluster (endpointText addr port) cfg).Exchanges trace result →
      ∃ answer, trace = [⟨.join ⟨addr, port⟩ cfg.serverId (endpointText cfg.addr cfg.raftPort)
        (endpointText cfg.addr cfg.clientPort), answer⟩]) ∧
    (∀ addr' port', ':' ∉ addr'.toList → 1 ≤ port'.toNat →
      endpointText addr port = endpointText addr' port' → addr = addr' ∧ port = port') := by
  have hparse := parseEndpoint_endpointText haddr hport
  refine ⟨?_, ?_, ?_, ?_⟩
  · rintro cfg srv rfl hnew
    unfold newReplica at hnew
    dsimp only at hnew
    split at hnew
    · cases hnew
    · cases hnew
      constructor
      · rintro rfl
        exact hparse
      · rintro rfl
        exact ⟨hparse, fun connects => new_endpointText haddr hport connects _,
          fun connects srvs m => connectAll_endpointText haddr hport connects _ srvs m⟩
  · rintro cfg seed server serverId raftEndpoint clientEndpoint answer trace result rfl hrun hmem
    rcases exchanges_tryJoinCluster hrun with ⟨rfl, -⟩ | ⟨server', answer', -, rfl⟩
    · cases hmem
    · cases List.mem_singleton.mp hmem
      constructor
      · rintro rfl
        exact hparse
      · rintro rfl
        exact ⟨hparse, fun connects => new_endpointText haddr hport connects _⟩
  · intro cfg trace result hrun
    rcases exchanges_tryJoinCluster hrun with ⟨-, e, he, -⟩ | ⟨server, answer, hserver, rfl⟩
    · rw [hparse] at he
      cases he
    · rw [hparse] at hserver
      cases hserver
      exact ⟨answer, rfl⟩
  · intro addr' port' haddr' hport' htext
    exact endpointText_injective haddr haddr' hport hport' htext

/-- A server that publishes an endpoint for its clients, and another one that
joins through an endpoint of the same form. -/
theorem published_endpoints_round_trip_host :
    (∃ srv, newReplica ⟨1, 10001, 10003, "host"⟩ = .ok srv ∧ srv.aux = "host:10003" ∧
      parseEndpoint srv.aux = .ok ⟨"host", 10003⟩) ∧
    ∃ trace answer,
      (tryJoinCluster "host:10003" ⟨2, 10001, 10003, "other"⟩).Exchanges trace (.ok ()) ∧
      trace = [⟨.join ⟨"host", 10003⟩ 2 "other:10001" "other:10003", answer⟩] := by
  rcases published_endpoints_round_trip "host" (by decide) 10003 (by decide) with
    ⟨hpublished, -, hseed, -⟩
  refine ⟨⟨⟨1, "host:10001", "host:10003"⟩, rfl, rfl, ?_⟩, ?_⟩
  · exact ((hpublished ⟨1, 10001, 10003, "host"⟩ _ rfl rfl).2 rfl).1
  · have hrun : (tryJoinCluster "host:10003" ⟨2, 10001, 10003, "other"⟩).Exchanges
        [⟨.join ⟨"host", 10003⟩ 2 "other:10001" "other:10003", .ok (0, "joined")⟩] (.ok ()) :=
      ⟨_, _, rfl, rfl, rfl⟩
    rcases hseed ⟨2, 10001, 10003, "other"⟩ _ _ hrun with ⟨answer, htrace⟩
    exact ⟨_, answer, hrun, htrace⟩

end ReplicatedSplinterDB
