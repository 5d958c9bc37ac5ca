import ReplicatedSplinterDB.Client.Console
import ReplicatedSplinterDB.Server.Membership

/-!
# Starting servers and clients

A server is started with flags.  The ports are checked as 32-bit numbers, cut to
16 bits, printed into the endpoints that the server publishes, and read again by
joining servers and by clients.  This module follows them all the way, for
clusters that grow by any number of servers.

Main results:

- Theorem {lit}`serverConfig_eq_ok`: the configuration of a server that starts.
- Theorem {lit}`Formed.membership`: the members of a cluster of started servers.
- Theorem {lit}`started_cluster_serves_clients`: a client of such a cluster is
  connected to exactly the servers that it can reach, at the hosts and ports that
  they were started with.
-/

namespace ReplicatedSplinterDB

open Foundation

/-! ## The flags of a server -/

/-- {lit}`validate_port` -/
def validatePort (value : Int32) : Bool := 0 < value && value < 32768

/-- {lit}`validate_nthreads` -/
def validateNthreads (value : Int64) : Bool := 4 ≤ value && value ≤ 50

/-- The flags of {lit}`spl_server` that its own code reads. -/
structure ServerFlags where
  serverid : Int32 := -1
  raftport : Int32 := 10001
  joinport : Int32 := 10002
  clientport : Int32 := 10003
  seed : String := ""
  nthreads : Int64 := 4
deriving DecidableEq, Repr

/-- The validators that are run on the flags. -/
def ServerFlags.valid (flags : ServerFlags) : Bool :=
  validatePort flags.raftport && validatePort flags.clientport && validatePort flags.joinport &&
    validateNthreads flags.nthreads

/-- {lit}`static_cast<uint16_t>` of a flag. -/
def castPort (value : Int32) : UInt16 := value.toUInt32.toUInt16

/-- The configuration that {lit}`main` fills in.  Flags that a validator refuses
and server identifiers below 1 end the program with status 1. -/
def serverConfig (flags : ServerFlags) (hostname : String) : Except Exception ReplicaConfig :=
  if flags.valid = false then .error (.exit 1)
  else if flags.serverid < 1 then .error (.exit 1)
  else
    .ok
      { serverId := flags.serverid
        raftPort := castPort flags.raftport
        clientPort := castPort flags.clientport
        addr := hostname }

/-- {lit}`main` up to the point where the server handles requests. -/
def serverMain (flags : ServerFlags) (hostname : String) :
    Interaction JoinRpc JoinRpc.Answer (Except Exception Unit) :=
  match serverConfig flags hostname with
  | .error e => .ret (.error e)
  | .ok cfg =>
      match newReplica cfg with
      | .error e => .ret (.error e)
      | .ok _ => if flags.seed ≠ "" then tryJoinCluster flags.seed cfg else .ret (.ok ())

/-- A port that was checked survives the cast. -/
theorem toNat_castPort {value : Int32} (h : validatePort value = true) :
    ((castPort value).toNat : Int) = value.toInt := by
  rw [validatePort, Bool.and_eq_true, decide_eq_true_eq, decide_eq_true_eq,
    Int32.lt_iff_toInt_lt, Int32.lt_iff_toInt_lt] at h
  rcases h with ⟨hlow, hhigh⟩
  have hlow' : 0 < value.toBitVec.toInt := hlow
  have hhigh' : value.toBitVec.toInt < 32768 := hhigh
  have hbound := value.toBitVec.isLt
  have hcast : (castPort value).toNat = value.toBitVec.toNat % 2 ^ 16 :=
    UInt32.toNat_toUInt16 value.toUInt32
  have hvalue : value.toInt = value.toBitVec.toInt := rfl
  rw [hcast, hvalue]
  rw [BitVec.toInt_eq_toNat_cond] at hlow' hhigh' ⊢
  split at hlow'
  · omega
  · omega

/-- The configuration of a server that starts. -/
theorem serverConfig_eq_ok {flags : ServerFlags} {hostname : String} {cfg : ReplicaConfig}
    (h : serverConfig flags hostname = .ok cfg) :
    cfg.serverId = flags.serverid ∧ 1 ≤ flags.serverid ∧ cfg.addr = hostname ∧
      (cfg.raftPort.toNat : Int) = flags.raftport.toInt ∧
      (cfg.clientPort.toNat : Int) = flags.clientport.toInt ∧
      1 ≤ cfg.raftPort.toNat ∧ 1 ≤ cfg.clientPort.toNat := by
  unfold serverConfig at h
  split at h
  · cases h
  · rename_i hvalid
    split at h
    · cases h
    · rename_i hid
      cases h
      rw [Bool.not_eq_false, ServerFlags.valid, Bool.and_eq_true, Bool.and_eq_true,
        Bool.and_eq_true] at hvalid
      rcases hvalid with ⟨⟨⟨hraft, hclient⟩, -⟩, -⟩
      have hraftPort := toNat_castPort hraft
      have hclientPort := toNat_castPort hclient
      have hpositive : ∀ value : Int32, validatePort value = true → 0 < value.toInt := by
        intro value hvalue
        rw [validatePort, Bool.and_eq_true, decide_eq_true_eq, Int32.lt_iff_toInt_lt] at hvalue
        exact hvalue.1
      have hraftPos := hpositive _ hraft
      have hclientPos := hpositive _ hclient
      refine ⟨rfl, ?_, rfl, hraftPort, hclientPort, ?_, ?_⟩
      · grind
      · dsimp only
        omega
      · dsimp only
        omega

/-! ## Clusters of started servers -/

/-- The configurations that a cluster of started servers holds.  Its first server
founds it, and each of the others was started with a seed, to which it has sent
its endpoints. -/
inductive Formed : List (ServerFlags × String) → List SrvConfig → Prop where
  | found {flags : ServerFlags} {hostname : String} {cfg : ReplicaConfig} {srv : SrvConfig}
      (hconfig : serverConfig flags hostname = .ok cfg) (hnew : newReplica cfg = .ok srv) :
      Formed [(flags, hostname)] [srv]
  | join {starts : List (ServerFlags × String)} {members : List SrvConfig}
      (h : Formed starts members) {flags : ServerFlags} {hostname : String} {server : Endpoint}
      {serverId : Int32} {raftEndpoint clientEndpoint : String}
      {answer : Except String (Int32 × String)} {result : Except Exception Unit}
      (hrun : (serverMain flags hostname).Exchanges
        [⟨.join server serverId raftEndpoint clientEndpoint, answer⟩] result) :
      Formed (starts ++ [(flags, hostname)])
        (members ++ [addServer serverId raftEndpoint clientEndpoint])

/-- A server that sends a join request was configured and joins with its own
configuration. -/
theorem exchanges_serverMain {flags : ServerFlags} {hostname : String}
    {exchange : Sigma JoinRpc.Answer} {trace : List (Sigma JoinRpc.Answer)}
    {result : Except Exception Unit}
    (h : (serverMain flags hostname).Exchanges (exchange :: trace) result) :
    ∃ cfg, serverConfig flags hostname = .ok cfg ∧
      (tryJoinCluster flags.seed cfg).Exchanges (exchange :: trace) result := by
  unfold serverMain at h
  split at h
  · cases h.1
  · rename_i cfg hconfig
    split at h
    · cases h.1
    · split at h
      · exact ⟨cfg, hconfig, h⟩
      · cases h.1

/-- The members of a cluster of started servers are those of their
configurations. -/
theorem Formed.membership {starts : List (ServerFlags × String)} {members : List SrvConfig}
    (h : Formed starts members) :
    ∃ cfgs, List.Forall₂ (fun start cfg => serverConfig start.1 start.2 = .ok cfg) starts cfgs ∧
      Membership cfgs members := by
  induction h with
  | found hconfig hnew => exact ⟨_, .cons hconfig .nil, .found hnew⟩
  | join h hrun ih =>
      rcases ih with ⟨cfgs, hconfigs, hmembers⟩
      rcases exchanges_serverMain hrun with ⟨cfg, hconfig, hjoin⟩
      exact ⟨cfgs ++ [cfg], List.rel_append hconfigs (.cons hconfig .nil), hmembers.join hjoin⟩

/-- The configurations that a list of servers is started with. -/
theorem mem_configs_iff {starts : List (ServerFlags × String)} {cfgs : List ReplicaConfig}
    (h : List.Forall₂ (fun start cfg => serverConfig start.1 start.2 = .ok cfg) starts cfgs)
    (cfg : ReplicaConfig) :
    cfg ∈ cfgs ↔ ∃ start ∈ starts, serverConfig start.1 start.2 = .ok cfg := by
  induction h with
  | nil => simp
  | cons hconfig _ ih =>
      rw [List.mem_cons, ih]
      simp only [List.mem_cons, exists_eq_or_imp, hconfig, Except.ok.injEq]
      exact or_congr_left eq_comm

theorem exists_config_of_mem {starts : List (ServerFlags × String)} {cfgs : List ReplicaConfig}
    (h : List.Forall₂ (fun start cfg => serverConfig start.1 start.2 = .ok cfg) starts cfgs)
    {start : ServerFlags × String} (hstart : start ∈ starts) :
    ∃ cfg, serverConfig start.1 start.2 = .ok cfg := by
  induction h with
  | nil => cases hstart
  | cons hconfig _ ih =>
      rcases List.mem_cons.mp hstart with rfl | hlater
      · exact ⟨_, hconfig⟩
      · exact ih hlater

theorem map_serverId_configs {starts : List (ServerFlags × String)} {cfgs : List ReplicaConfig}
    (h : List.Forall₂ (fun start cfg => serverConfig start.1 start.2 = .ok cfg) starts cfgs) :
    cfgs.map ReplicaConfig.serverId = starts.map fun start => start.1.serverid := by
  induction h with
  | nil => rfl
  | cons hconfig _ ih => rw [List.map_cons, List.map_cons, ih, (serverConfig_eq_ok hconfig).1]

/-! ## What a client connects to -/

theorem mem_emplaceInto_iff {id : Int32} {entries : List (Int32 × Endpoint)}
    (hid : id ∉ entries.map Prod.fst) (endpoint : Endpoint) (entry : Int32 × Endpoint) :
    entry ∈ emplaceInto id endpoint entries ↔ entry = (id, endpoint) ∨ entry ∈ entries := by
  induction entries with
  | nil => simp [emplaceInto]
  | cons first rest ih =>
      rw [List.map_cons, List.mem_cons, not_or] at hid
      simp only [emplaceInto]
      split
      · exact List.mem_cons
      · rw [if_neg hid.1, List.mem_cons, ih hid.2, List.mem_cons]
        exact or_left_comm

/-- The entries of a map to which servers with new identifiers have been added.
The induction is on the servers. -/
theorem mem_entries_foldl_emplace {cfgs : List ReplicaConfig} {m : ServerMap}
    (hnodup : (cfgs.map ReplicaConfig.serverId).Nodup)
    (hnew : ∀ cfg ∈ cfgs, cfg.serverId ∉ m.ids) (entry : Int32 × Endpoint) :
    entry ∈ (cfgs.foldl (fun m cfg => m.emplace cfg.serverId cfg.clientEndpoint) m).entries ↔
      entry ∈ m.entries ∨ ∃ cfg ∈ cfgs, entry = (cfg.serverId, cfg.clientEndpoint) := by
  induction cfgs generalizing m with
  | nil => simp
  | cons cfg cfgs ih =>
      rw [List.map_cons, List.nodup_cons] at hnodup
      rw [List.forall_mem_cons] at hnew
      have hlater : ∀ other ∈ cfgs,
          other.serverId ∉ (m.emplace cfg.serverId cfg.clientEndpoint).ids := by
        intro other hother
        rw [ServerMap.mem_ids_emplace_iff, not_or]
        refine ⟨?_, hnew.2 other hother⟩
        intro hsame
        exact hnodup.1 (hsame ▸ List.mem_map_of_mem hother)
      have hfirst : entry ∈ (m.emplace cfg.serverId cfg.clientEndpoint).entries ↔
          entry = (cfg.serverId, cfg.clientEndpoint) ∨ entry ∈ m.entries :=
        mem_emplaceInto_iff hnew.1 cfg.clientEndpoint entry
      rw [List.foldl_cons, ih hnodup.2 hlater, hfirst, or_comm (b := entry ∈ m.entries), or_assoc]
      simp only [List.mem_cons, exists_eq_or_imp]

/-- What an endpoint text that is parsed without an exception looks like. -/
theorem parseEndpoint_eq_ok {text : String} {endpoint : Endpoint}
    (h : parseEndpoint text = .ok endpoint) :
    ∃ value : Int, stoi (afterColon text.toList) = .ok value ∧ 1 ≤ value ∧ value ≤ 65535 ∧
      endpoint = ⟨String.ofList (text.toList.takeWhile (· ≠ ':')), UInt16.ofNat value.toNat⟩ := by
  unfold parseEndpoint at h
  dsimp only at h
  split at h
  · cases h
  · rename_i value hvalue
    split at h
    · cases h
    · rename_i hrange
      cases h
      exact ⟨value, hvalue, by omega, by omega, rfl⟩

/-- What {lit}`spl_client` makes of the endpoint that a server publishes. -/
theorem checkEndpointFlag_endpointText {addr : String} (haddr : ':' ∉ addr.toList)
    {port : UInt16} (hport : 1 ≤ port.toNat) :
    checkEndpointFlag (endpointText addr port) =
      if port.toNat < 1024 then
        .ok (.error ("ERROR: flag '-endpoint' has invalid port number, " ++
          "expected 1024 <= port <= 65535"))
      else .ok (.ok ⟨addr, port⟩) := by
  have hcolon : ':' ∈ (endpointText addr port).toList := by simp [endpointText]
  have hne : endpointText addr port ≠ "" := by
    intro hempty
    rw [hempty] at hcolon
    simp at hcolon
  rcases parseEndpoint_eq_ok (parseEndpoint_endpointText haddr hport) with
    ⟨value, hvalue, hlow, hhigh, hendpoint⟩
  have hport' : port = UInt16.ofNat value.toNat := congrArg Endpoint.port hendpoint
  have hsame : port.toNat = value.toNat := by
    rw [hport', UInt16.toNat_ofNat']
    omega
  unfold checkEndpointFlag
  rw [if_neg hne, if_neg (not_not_intro hcolon), hvalue]
  dsimp only
  rw [hendpoint]
  by_cases hsmall : value < 1024
  · rw [if_pos (.inl hsmall), if_pos (by omega)]
  · rw [if_neg (by omega), if_neg (by omega)]

/-- The client endpoint of a configuration is given by the host and the port that
its server was started with. -/
theorem clientEndpoint_of_start {flags : ServerFlags} {hostname : String} {cfg : ReplicaConfig}
    (hconfig : serverConfig flags hostname = .ok cfg) {endpoint : Endpoint}
    (hhost : endpoint.host = hostname)
    (hport : (endpoint.port.toNat : Int) = flags.clientport.toInt) :
    endpoint = cfg.clientEndpoint := by
  rcases serverConfig_eq_ok hconfig with ⟨-, -, haddr, -, hport', -⟩
  have hsame : endpoint.port = cfg.clientPort := by
    rw [← UInt16.toNat_inj]
    omega
  rcases endpoint with ⟨host, port⟩
  cases hsame
  cases hhost
  rw [ReplicaConfig.clientEndpoint, haddr]

/-- The configurations that a client can reach, told by what their servers were
started with. -/
theorem exists_reached_config_iff {starts : List (ServerFlags × String)}
    {cfgs : List ReplicaConfig}
    (h : List.Forall₂ (fun start cfg => serverConfig start.1 start.2 = .ok cfg) starts cfgs)
    (connects : Int32 → Endpoint → Bool) (id : Int32) (endpoint : Endpoint) :
    (∃ cfg ∈ cfgs.filter fun cfg => connects cfg.serverId cfg.clientEndpoint,
        (id, endpoint) = (cfg.serverId, cfg.clientEndpoint)) ↔
      connects id endpoint = true ∧ ∃ start ∈ starts, id = start.1.serverid ∧
        endpoint.host = start.2 ∧ (endpoint.port.toNat : Int) = start.1.clientport.toInt := by
  constructor
  · rintro ⟨cfg, hcfg, hentry⟩
    cases hentry
    rcases List.mem_filter.mp hcfg with ⟨hcfg, hconnects⟩
    rcases (mem_configs_iff h cfg).mp hcfg with ⟨start, hstart, hconfig⟩
    rcases serverConfig_eq_ok hconfig with ⟨hid, -, haddr, -, hport, -⟩
    exact ⟨hconnects, start, hstart, hid, haddr, hport⟩
  · rintro ⟨hconnects, start, hstart, rfl, hhost, hport⟩
    rcases exists_config_of_mem h hstart with ⟨cfg, hconfig⟩
    have hid := (serverConfig_eq_ok hconfig).1
    have hendpoint := clientEndpoint_of_start hconfig hhost hport
    refine ⟨cfg, List.mem_filter.mpr ⟨?_, ?_⟩, ?_⟩
    · exact (mem_configs_iff h cfg).mpr ⟨start, hstart, hconfig⟩
    · rw [hid, ← hendpoint]
      exact hconnects
    · rw [hid, hendpoint]

/-- For every cluster that is formed by starting servers on hosts whose names have
no colon, with different identifiers, and for every set of servers that can be
reached: the ports that the servers run on are those of their flags; a client that
gets its list from the cluster is constructed, and is connected to exactly the
servers that it can reach, each under the identifier, at the host and at the port
that it was started with; and {lit}`spl_client` accepts the client endpoint of a
server exactly if the port is at least 1024, and then connects to that server. -/
theorem started_cluster_serves_clients {starts : List (ServerFlags × String)}
    {members : List SrvConfig} (h : Formed starts members)
    (hhosts : ∀ start ∈ starts, ':' ∉ start.2.toList)
    (hids : (starts.map fun start => start.1.serverid).Nodup)
    (connects : Int32 → Endpoint → Bool) (leader : Int32) (numRetries : UInt16) :
    (∃ c, Client.new ⟨.ok (), .ok "pong", .ok (allServersReply members), .ok leader⟩ connects
        numRetries = .ok c ∧
      ∀ id endpoint, (id, endpoint) ∈ c.clients.entries ↔
        connects id endpoint = true ∧ ∃ start ∈ starts, id = start.1.serverid ∧
          endpoint.host = start.2 ∧ (endpoint.port.toNat : Int) = start.1.clientport.toInt) ∧
    ∀ start ∈ starts, ∃ port : UInt16, (port.toNat : Int) = start.1.clientport.toInt ∧
      checkEndpointFlag (endpointText start.2 port) =
        if start.1.clientport.toInt < 1024 then
          .ok (.error ("ERROR: flag '-endpoint' has invalid port number, " ++
            "expected 1024 <= port <= 65535"))
        else .ok (.ok ⟨start.2, port⟩) := by
  rcases h.membership with ⟨cfgs, hconfigs, hmembers⟩
  have hvalid : ∀ cfg ∈ cfgs, cfg.Valid := by
    intro cfg hcfg
    rcases (mem_configs_iff hconfigs cfg).mp hcfg with ⟨start, hstart, hconfig⟩
    rcases serverConfig_eq_ok hconfig with ⟨-, -, haddr, -, -, hraft, hclient⟩
    exact ⟨haddr ▸ hhosts start hstart, hraft, hclient⟩
  have hcfgIds : (cfgs.map ReplicaConfig.serverId).Nodup := by
    rw [map_serverId_configs hconfigs]
    exact hids
  constructor
  · have hconnected := hmembers.connectAll_eq_ok hvalid connects .empty
    refine ⟨_, Client.new_of_connectAll hconnected leader numRetries, ?_⟩
    intro id endpoint
    have hreached : ((cfgs.filter fun cfg =>
        connects cfg.serverId cfg.clientEndpoint).map ReplicaConfig.serverId).Nodup :=
      hcfgIds.sublist (List.filter_sublist.map _)
    rw [mem_entries_foldl_emplace hreached (by simp [ServerMap.empty, ServerMap.ids]),
      exists_reached_config_iff hconfigs connects]
    simp [ServerMap.empty]
  · intro start hstart
    rcases exists_config_of_mem hconfigs hstart with ⟨cfg, hconfig⟩
    rcases serverConfig_eq_ok hconfig with ⟨-, -, -, -, hport, -, hclient⟩
    refine ⟨cfg.clientPort, hport, ?_⟩
    rw [checkEndpointFlag_endpointText (hhosts start hstart) hclient]
    have hsmall : cfg.clientPort.toNat < 1024 ↔ start.1.clientport.toInt < 1024 := by omega
    simp only [hsmall]

/-- A server that founds a cluster and one that joins it, of which a client reaches
the second one only. -/
theorem two_started_servers_serve_clients :
    ∃ c, Client.new ⟨.ok (), .ok "pong", .ok [(1, "founder:10003"), (2, "joiner:700")], .ok 1⟩
        (fun id _ => id == 2) 3 = .ok c ∧
      (2, ⟨"joiner", 700⟩) ∈ c.clients.entries ∧
      ∀ endpoint, (1, endpoint) ∉ c.clients.entries := by
  have hconfig : serverConfig { serverid := 1 } "founder" =
      .ok ⟨1, 10001, 10003, "founder"⟩ := rfl
  have hrun : (serverMain { serverid := 2, clientport := 700, seed := "founder:10002" }
      "joiner").Exchanges [⟨.join ⟨"founder", 10002⟩ 2 "joiner:10001" "joiner:700",
        .ok (0, "joined")⟩] (.ok ()) := ⟨_, _, rfl, rfl, rfl⟩
  have hformed := (Formed.found hconfig rfl).join hrun
  rcases (started_cluster_serves_clients hformed (by decide) (by decide) (fun id _ => id == 2) 1
    3).1 with ⟨c, hnew, hentries⟩
  refine ⟨c, hnew, ?_, ?_⟩
  · exact (hentries 2 ⟨"joiner", 700⟩).mpr ⟨rfl, _, .tail _ (.head _), rfl, rfl, rfl⟩
  · intro endpoint hmem
    exact absurd ((hentries 1 endpoint).mp hmem).1 (by decide)

end ReplicatedSplinterDB
