import ReplicatedSplinterDB.Client.Read
import ReplicatedSplinterDB.Foundation.MaximalRuns

/-!
# The command line client

The interactive client reads a line into a fixed buffer, splits it into tokens
and hands them to the command handler, until a line starts with the token
{lit}`exit`, no line can be read or a command throws.  In its one-time mode it
splits one command and hands it over.

A text is a list of bytes here.  Only the output of the program itself is
modelled, not the log lines of the client it uses.

Main results:

- Theorem {lit}`tokenize_eq_runs`: on a line with its terminator, the tokenizer
  returns the maximal runs of characters other than the delimiter, whatever
  stands behind the terminator.
- Theorem {lit}`session_of_fits`: what the session does with one typed line.
- Theorem {lit}`session_safe_iff`: which typed lines the session dispatches as it
  should, for every client and in every run.
- Theorem {lit}`clientMain_of_blank`: the two modes on a command without a token.
-/

namespace ReplicatedSplinterDB

open Foundation

/-! ## Tokenizing -/

/-- The bytes of a text. -/
def textBytes (text : String) : Bytes := text.toList.map fun c => UInt8.ofNat c.toNat

/-- The inner loop of {lit}`tokenize`: move the pointer over the bytes that are
neither the delimiter nor the terminator.  The memory from the pointer on is
given; the result is the bytes that were passed and the memory from the new
pointer on.  Behind its end the memory cannot be read. -/
def scanToken (c : UInt8) : Bytes → Except Exception (Bytes × Bytes)
  | [] => .error .outOfBounds
  | b :: memory =>
      -- The order of the two tests does not matter: both read the same byte.
      if b ≠ c ∧ b ≠ 0 then
        match scanToken c memory with
        | .error e => .error e
        | .ok (passed, memory) => .ok (b :: passed, memory)
      else .ok ([], b :: memory)

theorem scanToken_append {c : UInt8} {memory passed rest : Bytes}
    (h : scanToken c memory = .ok (passed, rest)) : memory = passed ++ rest := by
  induction memory generalizing passed with
  | nil => cases h
  | cons b memory ih =>
      rw [scanToken] at h
      split at h
      · cases hscan : scanToken c memory with
        | error e =>
            rw [hscan] at h
            cases h
        | ok result =>
            rw [hscan] at h
            cases h
            rw [ih hscan]
            rfl
      · cases h
        rfl

/-- The outer loop of {lit}`tokenize`.  The test at its end reads the byte under
the pointer and moves the pointer behind it. -/
def tokenizeLoop (c : UInt8) (tokens : List Bytes) (str : Bytes) :
    Except Exception (List Bytes) :=
  match _h : scanToken c str with
  | .error e => .error e
  | .ok (_, []) => .error .outOfBounds
  | .ok (passed, b :: rest) =>
      let tokens := if passed ≠ [] then tokens ++ [passed] else tokens
      if 0 ≠ b then tokenizeLoop c tokens rest else .ok tokens
termination_by str.length
decreasing_by
  rw [scanToken_append _h, List.length_append, List.length_cons]
  omega

/-- {lit}`tokenize`, on the memory from its argument on. -/
def tokenize (str : Bytes) (c : UInt8) : Except Exception (List Bytes) := tokenizeLoop c [] str

/-- The default delimiter of {lit}`tokenize`. -/
def blank : UInt8 := 32

/-- The inner loop stops at the first delimiter or terminator. -/
theorem scanToken_of_forall {c b : UInt8} {piece rest : Bytes}
    (hpiece : ∀ a ∈ piece, a ≠ c ∧ a ≠ 0) (hstop : b = c ∨ b = 0) :
    scanToken c (piece ++ b :: rest) = .ok (piece, b :: rest) := by
  induction piece with
  | nil =>
      have hends : ¬ (b ≠ c ∧ b ≠ 0) := by
        rintro ⟨hdelim, hnul⟩
        rcases hstop with h | h
        · exact hdelim h
        · exact hnul h
      rw [List.nil_append, scanToken, if_neg hends]
  | cons a piece ih =>
      rw [List.forall_mem_cons] at hpiece
      rw [List.cons_append, scanToken, if_pos hpiece.1, ih hpiece.2]

/-- One round of the outer loop. -/
theorem tokenizeLoop_append {c b : UInt8} {piece rest : Bytes} (tokens : List Bytes)
    (hpiece : ∀ a ∈ piece, a ≠ c ∧ a ≠ 0) (hstop : b = c ∨ b = 0) :
    tokenizeLoop c tokens (piece ++ b :: rest) =
      if 0 ≠ b then tokenizeLoop c (tokens ++ if piece = [] then [] else [piece]) rest
      else .ok (tokens ++ if piece = [] then [] else [piece]) := by
  have hscan : scanToken c (piece ++ b :: rest) = .ok (piece, b :: rest) :=
    scanToken_of_forall hpiece hstop
  have htokens : (if piece ≠ [] then tokens ++ [piece] else tokens) =
      tokens ++ if piece = [] then [] else [piece] := by
    by_cases hempty : piece = []
    · simp [hempty]
    · simp [hempty]
  rw [tokenizeLoop]
  split
  · rename_i e he
    rw [hscan] at he
    cases he
  · rename_i he
    rw [hscan] at he
    cases he
  · rename_i passed b' rest' hok
    rw [hscan] at hok
    cases hok
    rw [htokens]

/-- The tokens of a line.  The induction takes one token and its delimiter off
the line, as the loop does. -/
theorem tokenizeLoop_eq_runs {c : UInt8} {line : Bytes} (hline : 0 ∉ line) (behind : Bytes)
    (tokens : List Bytes) :
    tokenizeLoop c tokens (line ++ 0 :: behind) = .ok (tokens ++ runs (· != c) line) := by
  induction line using pieces_induction (p := (· != c)) generalizing tokens with
  | whole line h =>
      have hbytes : ∀ a ∈ line, a ≠ c ∧ a ≠ 0 := by
        intro a ha
        refine ⟨by simpa using h a ha, ?_⟩
        rintro rfl
        exact hline ha
      rw [tokenizeLoop_append tokens hbytes (.inr rfl), runs_whole h]
      simp
  | split piece sep rest h hsep ih =>
      have hdelim : sep = c := by simpa using hsep
      have hbytes : ∀ a ∈ piece, a ≠ c ∧ a ≠ 0 := by
        intro a ha
        refine ⟨by simpa using h a ha, ?_⟩
        rintro rfl
        exact hline (List.mem_append_left _ ha)
      have hnul : 0 ≠ sep := by
        rintro rfl
        exact hline (by simp)
      have hrest : 0 ∉ rest := by
        intro hmem
        exact hline (by simp [hmem])
      rw [List.append_assoc, List.cons_append, tokenizeLoop_append tokens hbytes (.inl hdelim),
        if_pos hnul, ih hrest, runs_append_cons h hsep, List.append_assoc]

theorem tokenize_eq_runs {c : UInt8} {line : Bytes} (hline : 0 ∉ line) (behind : Bytes) :
    tokenize (line ++ 0 :: behind) c = .ok (runs (· != c) line) := by
  rw [tokenize, tokenizeLoop_eq_runs hline, List.nil_append]

/-! ## Commands -/

/-- What a command returns, and the lines that it prints. -/
abbrev CommandResult := Bool × List Bytes

/-- The exit status that a command gives the program. -/
def CommandResult.status (result : CommandResult) : Int32 := if result.1 then 0 else 1

/-- {lit}`std::tolower` in the default locale. -/
def toLower (b : UInt8) : UInt8 := if 65 ≤ b ∧ b ≤ 90 then b + 32 else b

/-- {lit}`handle_mutation_result` -/
def handleMutationResult (result : MutationResult) : CommandResult :=
  if result.raftCode = 0 ∧ result.splCode = 0 then (true, [textBytes "succeeded"])
  else if result.raftCode ≠ 0 then
    (false, [textBytes ("append log failed, rc=" ++ toString result.raftCode.toInt ++ ": " ++
      result.msg)])
  else if result.splCode ≠ 0 then
    (false, [textBytes ("put failed, rc=" ++ toString result.splCode.toInt)])
  else (false, [])

/-- What the {lit}`get` command makes of its result. -/
def handleReadResult (result : ReadResult) : CommandResult :=
  if result.2 = 0 then (true, [textBytes "value: " ++ result.1])
  else (false, [textBytes ("get failed, rc=" ++ toString result.2.toInt)])

/-- What the {lit}`ls` command prints. -/
def printServers (srvs : List (Int32 × String)) (leaderId : Int32) : List Bytes :=
  textBytes "server id : client-facing endpoint" :: srvs.map fun (srvId, endpoint) =>
    let extra := if srvId = leaderId then " (LEADER)" else ""
    textBytes (toString srvId.toInt ++ " : " ++ endpoint ++ extra)

/-- What the {lit}`help` command prints. -/
def helpText : List Bytes :=
  ["Commands:", "  put <key> <value>", "  update <key> <value>", "  delete <key>", "  get <key>",
    "  ls", "  dumpcache", "  help", "  exit (interactive mode only)"].map textBytes

/-- Run a mutation and report its result. -/
def mutationCommand (p : ClientProgram (Outcome MutationResult)) :
    FullProgram (Outcome CommandResult) :=
  p.full.bind fun (outcome, c) => .ret (outcome.map handleMutationResult, c)

/-- Run a call on all caches. -/
def cacheCommand (c : Client) (p : FullProgram (Except Exception Unit)) :
    FullProgram (Outcome CommandResult) :=
  p.bind fun outcome => .ret (outcome.map fun _ => (true, []), c)

/-- The {lit}`ls` command. -/
def listServers (c : Client) : FullProgram (Outcome CommandResult) :=
  c.getAllServers.bind fun
    | .error e => .ret (.error e, c)
    | .ok srvs =>
        c.getLeaderId.full.bind fun
          | .error e => .ret (.error e, c)
          | .ok leaderId => .ret (.ok (true, printServers srvs leaderId), c)

/-- {lit}`handle_command`.  A command that lacks arguments is not recognized, and
more arguments than it needs are ignored. -/
def handleCommand (tokens : List Bytes) (c : Client) : FullProgram (Outcome CommandResult) :=
  match tokens with
  | [] => .ret (.ok (false, []), c)
  | first :: _ =>
      let cmd := first.map toLower
      if cmd = textBytes "put" ∧ tokens.length ≥ 3 then
        mutationCommand (c.put (tokens.getD 1 []) (tokens.getD 2 []))
      else if cmd = textBytes "update" ∧ tokens.length ≥ 3 then
        mutationCommand (c.update (tokens.getD 1 []) (tokens.getD 2 []))
      else if cmd = textBytes "delete" ∧ tokens.length ≥ 2 then
        mutationCommand (c.del (tokens.getD 1 []))
      else if cmd = textBytes "get" ∧ tokens.length ≥ 2 then
        (c.get (tokens.getD 1 [])).bind fun (outcome, c) =>
          .ret (outcome.map handleReadResult, c)
      else if cmd = textBytes "ls" then listServers c
      else if cmd = textBytes "dumpcache" then cacheCommand c c.triggerCacheDumps
      else if cmd = textBytes "clearcache" then cacheCommand c c.triggerCacheClear
      else if cmd = textBytes "help" then .ret (.ok (true, helpText), c)
      else .ret (.ok (false, [textBytes "ERROR: unrecognized command"]), c)

/-! ## Reading lines -/

/-- The newline. -/
def newline : UInt8 := 10

/-- The loop of {lit}`std::istream::getline`, with the room that is left for
characters and those stored so far.  At the end of the input it fails if it has
read nothing; a newline ends the line and is dropped; and a character for which
there is no room makes it fail. -/
def getlineLoop (room : Nat) (stored : Bytes) : Bytes → Option (Bytes × Bytes)
  | [] => if stored = [] then none else some (stored, [])
  | b :: input =>
      if b = newline then some (stored, input)
      else if room = 0 then none
      else getlineLoop (room - 1) (stored ++ [b]) input

/-- {lit}`std::istream::getline` into a buffer of the given size, one byte of
which is for the terminator: the line and the rest of the input. -/
def getline (size : Nat) (input : Bytes) : Option (Bytes × Bytes) :=
  getlineLoop (size - 1) [] input

/-- What the buffer holds after a line was read into it. -/
def storeLine (buffer line : Bytes) : Bytes := line ++ 0 :: buffer.drop (line.length + 1)

theorem length_of_getlineLoop {room : Nat} {stored input line rest : Bytes}
    (h : getlineLoop room stored input = some (line, rest)) :
    rest.length < stored.length + input.length := by
  induction input generalizing room stored with
  | nil =>
      rw [getlineLoop] at h
      split at h
      · cases h
      · cases h
        rename_i hstored
        have hpos := List.length_pos_iff.mpr hstored
        simpa using hpos
  | cons b input ih =>
      rw [getlineLoop] at h
      split at h
      · cases h
        rw [List.length_cons]
        omega
      · split at h
        · cases h
        · have hlt := ih h
          rw [List.length_append, List.length_singleton] at hlt
          rw [List.length_cons]
          omega

/-! ## The session -/

/-- How a session ends. -/
inductive SessionEnd where
  /-- The first token of a line was {lit}`exit`. -/
  | exit
  /-- No line could be read. -/
  | noLine
  /-- A command threw, which ends the program. -/
  | threw (e : Exception)
  /-- The tokenizer left its buffer. -/
  | badRead (e : Exception)
  /-- The first element of an empty token vector was used. -/
  | emptyTokens
deriving DecidableEq, Repr

/-- The token vectors that were handed to the command handler with its results,
the end of the session and the value of {lit}`rc` there. -/
structure SessionResult where
  handled : List (List Bytes × Except Exception CommandResult)
  ended : SessionEnd
  rc : Int32
deriving Repr

/-- The size of the line buffer. -/
def bufferSize : Nat := 1000

/-- What the loop does with the outcome of a command: it sets {lit}`rc` and goes
on, unless the command threw. -/
def afterCommand (tokens : List Bytes) (rc : Int32)
    (next : Int32 → Client → FullProgram SessionResult) :
    Outcome CommandResult → FullProgram SessionResult
  | (.error e, _) => .ret ⟨[(tokens, .error e)], .threw e, rc⟩
  | (.ok result, c) =>
      (next (CommandResult.status result) c).bind fun later =>
        .ret { later with handled := (tokens, .ok result) :: later.handled }

/-- The loop of the interactive mode, on what is typed from now on, what the
buffer holds, the value of {lit}`rc` and the client. -/
def session (input buffer : Bytes) (rc : Int32) (c : Client) : FullProgram SessionResult :=
  match _h : getline bufferSize input with
  | none => .ret ⟨[], .noLine, rc⟩
  | some (line, input') =>
      let buffer := storeLine buffer line
      match tokenize buffer blank with
      | .error e => .ret ⟨[], .badRead e, rc⟩
      -- The loop looks at the first token before anything has looked at the size.
      | .ok [] => .ret ⟨[], .emptyTokens, rc⟩
      | .ok (first :: more) =>
          if first = textBytes "exit" then .ret ⟨[], .exit, rc⟩
          else
            (handleCommand (first :: more) c).bind
              (afterCommand (first :: more) rc fun rc c => session input' buffer rc c)
termination_by input.length
decreasing_by
  have hlt := length_of_getlineLoop _h
  rwa [List.length_nil, Nat.zero_add] at hlt

/-- What the process returns or dies of. -/
def SessionResult.status (result : SessionResult) : Except Exception Int32 :=
  match result.ended with
  | .exit => .ok result.rc
  | .noLine => .ok result.rc
  | .threw e => .error e
  | .badRead e => .error e
  | .emptyTokens => .error .outOfBounds

/-- The one-time mode. -/
def oneTime (command : Bytes) (c : Client) : FullProgram (Except Exception Int32) :=
  match tokenize (command ++ [0]) blank with
  | .error e => .ret (.error e)
  | .ok tokens =>
      (handleCommand tokens c).bind fun (outcome, _) =>
        .ret (outcome.map CommandResult.status)

/-- The checks on the flag {lit}`-endpoint`: a server, or a message. -/
def checkEndpointFlag (flag : String) : Except Exception (Except String Endpoint) :=
  if flag = "" then .ok (.error "ERROR: flag '-endpoint' is required")
  else if ':' ∉ flag.toList then
    .ok (.error "ERROR: flag '-endpoint' has invalid format, expected <host>:<port>")
  else
    match stoi (afterColon flag.toList) with
    | .error e => .error e
    | .ok port =>
        if port < 1024 ∨ port > 65535 then
          .ok (.error ("ERROR: flag '-endpoint' has invalid port number, " ++
            "expected 1024 <= port <= 65535"))
        else
          .ok (.ok ⟨String.ofList (flag.toList.takeWhile (· ≠ ':')), UInt16.ofNat port.toNat⟩)

/-- {lit}`main`, with the two flags, the constructor of the client, what is typed
and what the line buffer holds before its first use. -/
def clientMain (flagEndpoint : String) (flagE : Bytes)
    (connect : Endpoint → Except Exception Client) (input buffer : Bytes) :
    FullProgram (Except Exception Int32) :=
  match checkEndpointFlag flagEndpoint with
  | .error e => .ret (.error e)
  | .ok (.error _) => .ret (.ok 1)
  | .ok (.ok server) =>
      match connect server with
      | .error e => .ret (.error e)
      | .ok c =>
          if flagE ≠ [] then oneTime flagE c
          else (session input buffer 0 c).bind fun result => .ret result.status

/-! ## One typed line -/

/-- The tokens of a line. -/
def tokensOf (line : Bytes) : List Bytes := runs (· != blank) line

theorem getlineLoop_append {line : Bytes} (hline : newline ∉ line) (room : Nat)
    (stored input : Bytes) :
    getlineLoop room stored (line ++ newline :: input) =
      if line.length ≤ room then some (stored ++ line, input) else none := by
  induction line generalizing room stored with
  | nil => simp [getlineLoop]
  | cons b line ih =>
      rw [List.mem_cons, not_or] at hline
      rw [List.cons_append, getlineLoop, if_neg (Ne.symm hline.1), List.length_cons]
      by_cases hroom : room = 0
      · rw [if_pos hroom, if_neg (by omega)]
      · rw [if_neg hroom, ih hline.2]
        by_cases hfits : line.length ≤ room - 1
        · rw [if_pos hfits, if_pos (by omega), List.append_assoc, List.singleton_append]
        · rw [if_neg hfits, if_neg (by omega)]

theorem getline_append {line : Bytes} (hline : newline ∉ line) (input : Bytes) :
    getline bufferSize (line ++ newline :: input) =
      if line.length ≤ 999 then some (line, input) else none := by
  rw [getline, getlineLoop_append hline, List.nil_append]
  rfl

theorem tokenize_storeLine {line : Bytes} (hline : 0 ∉ line) (buffer : Bytes) :
    tokenize (storeLine buffer line) blank = .ok (tokensOf line) :=
  tokenize_eq_runs hline _

theorem session_of_long {line : Bytes} (hline : newline ∉ line) (hlong : ¬ line.length ≤ 999)
    (input buffer : Bytes) (rc : Int32) (c : Client) :
    session (line ++ newline :: input) buffer rc c = .ret ⟨[], .noLine, rc⟩ := by
  have hread := getline_append hline input
  rw [if_neg hlong] at hread
  rw [session]
  split
  · rfl
  · rename_i heq
    rw [hread] at heq
    cases heq

/-- A line that fits into the buffer is tokenized; without a token the session
ends where it uses the first one. -/
theorem session_of_fits {line : Bytes} (hnul : 0 ∉ line) (hline : newline ∉ line)
    (hfits : line.length ≤ 999) (input buffer : Bytes) (rc : Int32) (c : Client) :
    session (line ++ newline :: input) buffer rc c =
      match tokensOf line with
      | [] => .ret ⟨[], .emptyTokens, rc⟩
      | first :: more =>
          if first = textBytes "exit" then .ret ⟨[], .exit, rc⟩
          else
            (handleCommand (first :: more) c).bind
              (afterCommand (first :: more) rc
                fun rc c => session input (storeLine buffer line) rc c) := by
  have hread := getline_append hline input
  rw [if_pos hfits] at hread
  rw [session]
  split
  · rename_i heq
    rw [hread] at heq
    cases heq
  · rename_i line' input' heq
    rw [hread] at heq
    cases heq
    dsimp only
    rw [tokenize_storeLine hnul]
    cases tokensOf line with
    | nil => rfl
    | cons first more => rfl

/-! ## Whole sessions -/

/-- What is typed when these lines are. -/
def typed (lines : List Bytes) : Bytes := lines.flatMap fun line => line ++ [newline]

theorem typed_cons (line : Bytes) (lines : List Bytes) :
    typed (line :: lines) = line ++ newline :: typed lines := by
  rw [typed, List.flatMap_cons, List.append_assoc]
  rfl

/-- The first token of the line is {lit}`exit`. -/
def isExitLine (line : Bytes) : Bool := (tokensOf line).head? == some (textBytes "exit")

/-- Each line was handed to the command handler or is the {lit}`exit` that ended
the session: the tokens of the first lines were handed over, in order, none of
them of an {lit}`exit` line; the first line that was not handed over is one,
unless a command threw before; and the session did not leave its buffer or its
token vector. -/
structure Dispatched (lines : List Bytes) (result : SessionResult) : Prop where
  tokens : result.ended ≠ .emptyTokens
  buffer : ∀ e, result.ended ≠ .badRead e
  handed : result.handled.map Prod.fst = (lines.map tokensOf).take result.handled.length
  running : ∀ line ∈ lines.take result.handled.length, isExitLine line = false
  stopped : ∀ line, lines[result.handled.length]? = some line →
    isExitLine line = true ∨ ∃ e, result.ended = .threw e
  threw : ∀ e, result.ended = .threw e → result.handled.getLast?.map Prod.snd = some (.error e)

section Cons

variable {line : Bytes} {lines : List Bytes} {rc : Int32}

theorem Dispatched.stop {ended : SessionEnd} (hexit : isExitLine line = true)
    (hended : ended = .exit ∨ ended = .noLine) :
    Dispatched (line :: lines) ⟨[], ended, rc⟩ where
  tokens := by rcases hended with rfl | rfl <;> simp
  buffer := by rcases hended with rfl | rfl <;> simp
  handed := rfl
  running := by simp
  stopped := by
    intro other hother
    cases hother
    exact .inl hexit
  threw := by rcases hended with rfl | rfl <;> simp

theorem Dispatched.error (hrun : isExitLine line = false) (e : Exception) :
    Dispatched (line :: lines) ⟨[(tokensOf line, .error e)], .threw e, rc⟩ where
  tokens := by simp
  buffer := by simp
  handed := rfl
  running := by simpa using hrun
  stopped := by
    intro other _
    exact .inr ⟨e, rfl⟩
  threw := by
    intro e' he
    cases he
    rfl

/-- A command that did not throw is not the last one if another one threw. -/
theorem getLast?_handled_cons (tokens : List Bytes) (result : CommandResult)
    (handled : List (List Bytes × Except Exception CommandResult)) (e : Exception) :
    ((tokens, .ok result) :: handled).getLast?.map Prod.snd = some (.error e) ↔
      handled.getLast?.map Prod.snd = some (.error e) := by
  cases handled with
  | nil => simp
  | cons next rest => rw [List.getLast?_cons_cons]

/-- A line that was handed over leaves the rest of the session to the rest of the
lines. -/
theorem dispatched_cons_iff (hrun : isExitLine line = false) (result : CommandResult)
    (later : SessionResult) :
    Dispatched (line :: lines)
        { later with handled := (tokensOf line, .ok result) :: later.handled } ↔
      Dispatched lines later := by
  constructor
  · intro h
    refine ⟨h.tokens, h.buffer, ?_, ?_, ?_, ?_⟩
    · have hhanded := h.handed
      rw [List.map_cons, List.map_cons, List.length_cons, List.take_succ_cons] at hhanded
      exact (List.cons.inj hhanded).2
    · intro other hother
      exact h.running other (List.mem_cons_of_mem line hother)
    · intro other hother
      exact h.stopped other hother
    · intro e he
      exact (getLast?_handled_cons _ _ _ _).mp (h.threw e he)
  · intro h
    refine ⟨h.tokens, h.buffer, ?_, ?_, ?_, ?_⟩
    · rw [List.map_cons, List.map_cons, List.length_cons, List.take_succ_cons, h.handed]
    · rw [List.length_cons, List.take_succ_cons]
      exact List.forall_mem_cons.mpr ⟨hrun, h.running⟩
    · intro other hother
      exact h.stopped other hother
    · intro e he
      exact (getLast?_handled_cons _ _ _ _).mpr (h.threw e he)

end Cons

/-- A line that the session can dispatch: it fits into the buffer, and it has a
character other than the blank. -/
def Dispatchable (line : Bytes) : Prop := line.length ≤ 999 ∧ ∃ b ∈ line, b ≠ blank

theorem tokensOf_eq_nil_iff (line : Bytes) : tokensOf line = [] ↔ ∀ b ∈ line, b = blank := by
  rw [tokensOf, runs_eq_nil_iff]
  simp

/-- The session on a line that is handed over. -/
theorem session_of_dispatchable {line : Bytes} (hnul : 0 ∉ line) (hline : newline ∉ line)
    (hdispatchable : Dispatchable line) (hrun : isExitLine line = false) (input buffer : Bytes)
    (rc : Int32) (c : Client) :
    session (line ++ newline :: input) buffer rc c =
      (handleCommand (tokensOf line) c).bind
        (afterCommand (tokensOf line) rc
          fun rc c => session input (storeLine buffer line) rc c) := by
  rcases hdispatchable with ⟨hfits, b, hb, hblank⟩
  rw [session_of_fits hnul hline hfits]
  unfold isExitLine at hrun
  cases htokens : tokensOf line with
  | nil => exact absurd ((tokensOf_eq_nil_iff line).mp htokens b hb) hblank
  | cons first more =>
      have hfirst : first ≠ textBytes "exit" := by
        rintro rfl
        simp [htokens] at hrun
      dsimp only
      rw [if_neg hfirst]

/-- The session on a line that ends it, be it too long for the buffer. -/
theorem session_of_exit {line : Bytes} (hnul : 0 ∉ line) (hline : newline ∉ line)
    (hexit : isExitLine line = true) (input buffer : Bytes) (rc : Int32) (c : Client) :
    ∃ ended, (ended = .exit ∨ ended = .noLine) ∧
      session (line ++ newline :: input) buffer rc c = .ret ⟨[], ended, rc⟩ := by
  by_cases hfits : line.length ≤ 999
  · refine ⟨.exit, .inl rfl, ?_⟩
    rw [session_of_fits hnul hline hfits]
    unfold isExitLine at hexit
    cases htokens : tokensOf line with
    | nil => simp [htokens] at hexit
    | cons first more =>
        have hfirst : first = textBytes "exit" := by simpa [htokens] using hexit
        dsimp only
        rw [if_pos hfirst]
  · exact ⟨.noLine, .inr rfl, session_of_long hline hfits input buffer rc c⟩

/-- The session on a line that it cannot dispatch: too long, or without a token. -/
theorem session_of_not_dispatchable {line : Bytes} (hnul : 0 ∉ line) (hline : newline ∉ line)
    (hbad : ¬ Dispatchable line) (input buffer : Bytes) (rc : Int32) (c : Client) :
    ∃ ended, (ended = .noLine ∨ ended = .emptyTokens) ∧
      session (line ++ newline :: input) buffer rc c = .ret ⟨[], ended, rc⟩ := by
  by_cases hfits : line.length ≤ 999
  · have hblank : ∀ b ∈ line, b = blank := by
      intro b hb
      by_contra hne
      exact hbad ⟨hfits, b, hb, hne⟩
    refine ⟨.emptyTokens, .inr rfl, ?_⟩
    rw [session_of_fits hnul hline hfits, (tokensOf_eq_nil_iff line).mpr hblank]
  · exact ⟨.noLine, .inl rfl, session_of_long hline hfits input buffer rc c⟩

theorem not_dispatched_of_stopped {line : Bytes} {lines : List Bytes} {rc : Int32}
    {ended : SessionEnd} (hrun : isExitLine line = false)
    (hended : ended = .noLine ∨ ended = .emptyTokens) :
    ¬ Dispatched (line :: lines) ⟨[], ended, rc⟩ := by
  intro h
  rcases h.stopped line rfl with hexit | ⟨e, he⟩
  · rw [hrun] at hexit
    cases hexit
  · rcases hended with rfl | rfl
    · cases he
    · cases he

/-- A line as it can be typed: without the terminator and without a newline. -/
def IsLine (line : Bytes) : Prop := 0 ∉ line ∧ newline ∉ line

/-- The lines before the first {lit}`exit` can all be dispatched. -/
def AllDispatchable (lines : List Bytes) : Prop :=
  ∀ line ∈ lines.takeWhile (fun line => !isExitLine line), Dispatchable line

theorem allDispatchable_cons_iff {line : Bytes} (hrun : isExitLine line = false)
    (lines : List Bytes) :
    AllDispatchable (line :: lines) ↔ Dispatchable line ∧ AllDispatchable lines := by
  rw [AllDispatchable, List.takeWhile_cons_of_pos (by simp [hrun]), List.forall_mem_cons]
  rfl

theorem allDispatchable_of_exit {line : Bytes} (hexit : isExitLine line = true)
    (lines : List Bytes) : AllDispatchable (line :: lines) := by
  rw [AllDispatchable, List.takeWhile_cons_of_neg (by simp [hexit])]
  simp

/-- Every run of a session on lines that can be dispatched.  The induction is on
the lines, one round of the loop each. -/
theorem dispatched_of_exchanges {lines : List Bytes} (hlines : ∀ line ∈ lines, IsLine line)
    (hall : AllDispatchable lines) {buffer : Bytes} {rc : Int32} {c : Client}
    {trace : List (Sigma ClientRpc.Answer)} {result : SessionResult}
    (hrun : (session (typed lines) buffer rc c).Exchanges trace result) :
    Dispatched lines result := by
  induction lines generalizing buffer rc c trace result with
  | nil =>
      have hsession : session (typed []) buffer rc c = .ret ⟨[], .noLine, rc⟩ := by
        rw [session]
        rfl
      rw [hsession] at hrun
      rcases hrun with ⟨-, rfl⟩
      exact ⟨by simp, by simp, rfl, by simp, by simp, by simp⟩
  | cons line lines ih =>
      rw [List.forall_mem_cons] at hlines
      rcases hlines with ⟨⟨hnul, hline⟩, hrest⟩
      rw [typed_cons] at hrun
      cases hexit : isExitLine line with
      | true =>
          rcases session_of_exit hnul hline hexit (typed lines) buffer rc c with
            ⟨ended, hended, heq⟩
          rw [heq] at hrun
          rcases hrun with ⟨-, rfl⟩
          exact Dispatched.stop hexit hended
      | false =>
          rcases (allDispatchable_cons_iff hexit lines).mp hall with ⟨hdispatchable, hlater⟩
          rw [session_of_dispatchable hnul hline hdispatchable hexit] at hrun
          rcases Interaction.exchanges_bind_iff.mp hrun with
            ⟨first, second, ⟨outcome, c'⟩, rfl, -, hafter⟩
          cases outcome with
          | error e =>
              rcases hafter with ⟨-, rfl⟩
              exact Dispatched.error hexit e
          | ok command =>
              rcases Interaction.exchanges_bind_iff.mp hafter with
                ⟨third, fourth, later, rfl, hnext, -, rfl⟩
              exact (dispatched_cons_iff hexit command later).mpr (ih hrest hlater hnext)

/-! ## Sessions that go wrong -/

/-- A client with one server, which it takes for the leader. -/
def oneServer : Client :=
  ⟨ServerMap.empty.emplace 1 ⟨"localhost", 10003⟩, [1], 1, 3⟩

theorem exists_mutationCommand_oneServer (request : Request) :
    ∃ trace result,
      (mutationCommand (oneServer.perform request)).Exchanges trace (.ok result, oneServer) := by
  refine ⟨[⟨.rpc (.mutation 1 request), .ok ⟨0, 0, ""⟩⟩], (true, [textBytes "succeeded"]), ?_⟩
  rw [Client.perform_eq]
  exact ⟨_, _, rfl, rfl, rfl⟩

/-- With a server that answers, every command returns and leaves this client as
it is. -/
theorem exists_handleCommand_oneServer (tokens : List Bytes) :
    ∃ trace result, (handleCommand tokens oneServer).Exchanges trace (.ok result, oneServer) := by
  unfold handleCommand
  cases tokens with
  | nil => exact ⟨[], _, rfl, rfl⟩
  | cons first more =>
      dsimp only
      split
      · exact exists_mutationCommand_oneServer (.put _ _)
      split
      · exact exists_mutationCommand_oneServer (.update _ _)
      split
      · exact exists_mutationCommand_oneServer (.delete _)
      split
      · exact ⟨[⟨.get 1 _, .ok ([], 0)⟩], (true, _), _, _, rfl, rfl, rfl⟩
      split
      · exact ⟨[⟨.allServers 1, .ok []⟩, ⟨.rpc (.leaderId 1), .ok 1⟩], (true, _),
          _, _, rfl, _, _, rfl, rfl, rfl⟩
      split
      · exact ⟨[⟨.cache .dump 1, .ok true⟩], (true, []), _, _, rfl, rfl, rfl⟩
      split
      · exact ⟨[⟨.cache .clear 1, .ok true⟩], (true, []), _, _, rfl, rfl, rfl⟩
      split
      · exact ⟨[], _, rfl, rfl⟩
      · exact ⟨[], _, rfl, rfl⟩

/-- A session on lines that cannot all be dispatched, with a server that answers:
it gets to the first such line and fails there. -/
theorem exists_not_dispatched {lines : List Bytes} (hlines : ∀ line ∈ lines, IsLine line)
    (hbad : ¬ AllDispatchable lines) (buffer : Bytes) (rc : Int32) :
    ∃ trace result, (session (typed lines) buffer rc oneServer).Exchanges trace result ∧
      ¬ Dispatched lines result := by
  induction lines generalizing buffer rc with
  | nil => exact absurd (fun line h => by cases h) hbad
  | cons line lines ih =>
      rw [List.forall_mem_cons] at hlines
      rcases hlines with ⟨⟨hnul, hline⟩, hrest⟩
      rw [typed_cons]
      cases hexit : isExitLine line with
      | true => exact absurd (allDispatchable_of_exit hexit lines) hbad
      | false =>
          by_cases hdispatchable : Dispatchable line
          · -- The line is handed over, its command returns, and the bad line is among the rest.
            rw [allDispatchable_cons_iff hexit] at hbad
            have hlater : ¬ AllDispatchable lines := fun h => hbad ⟨hdispatchable, h⟩
            rcases exists_handleCommand_oneServer (tokensOf line) with ⟨first, command, hcommand⟩
            rcases ih hrest hlater (storeLine buffer line) (CommandResult.status command) with
              ⟨second, later, hnext, hnot⟩
            rw [session_of_dispatchable hnul hline hdispatchable hexit]
            refine ⟨first ++ (second ++ []),
              { later with handled := (tokensOf line, .ok command) :: later.handled }, ?_, ?_⟩
            · apply Interaction.exchanges_bind_iff.mpr
              refine ⟨first, second ++ [], _, rfl, hcommand, ?_⟩
              apply Interaction.exchanges_bind_iff.mpr
              exact ⟨second, [], later, rfl, hnext, rfl, rfl⟩
            · rw [dispatched_cons_iff hexit]
              exact hnot
          · -- The line itself is the bad one.
            rcases session_of_not_dispatchable hnul hline hdispatchable (typed lines) buffer rc
              oneServer with ⟨ended, hended, heq⟩
            rw [heq]
            exact ⟨[], _, ⟨rfl, rfl⟩, not_dispatched_of_stopped hexit hended⟩

/-- What the interactive mode is meant to do with the typed lines.  The tokens of
a line are its maximal runs of characters other than the blank, in order, found
without a look behind the terminator; the command handler refuses an empty token
vector; and in every run with every client the lines are dispatched. -/
structure SessionSafe (lines : List Bytes) : Prop where
  tokenized : ∀ line ∈ lines, ∃ tokens,
    (∀ behind, tokenize (line ++ 0 :: behind) blank = .ok tokens) ∧
      IsMaximalRuns (· != blank) line tokens ∧
      (∀ token ∈ tokens, token ≠ [] ∧ blank ∉ token) ∧
      tokens.flatten = line.filter (· != blank)
  refused : ∀ c, handleCommand [] c = .ret (.ok (false, []), c)
  dispatched : ∀ c buffer trace result,
    (session (typed lines) buffer 0 c).Exchanges trace result → Dispatched lines result

/-- The tokens of every line without the terminator. -/
theorem tokenize_spec {line : Bytes} (hline : 0 ∉ line) :
    (∀ behind, tokenize (line ++ 0 :: behind) blank = .ok (tokensOf line)) ∧
      IsMaximalRuns (· != blank) line (tokensOf line) ∧
      (∀ token ∈ tokensOf line, token ≠ [] ∧ blank ∉ token) ∧
      (tokensOf line).flatten = line.filter (· != blank) := by
  refine ⟨fun behind => tokenize_eq_runs hline behind, isMaximalRuns_runs _ line, ?_,
    flatten_runs line⟩
  intro token htoken
  rcases forall_mem_runs line token htoken with ⟨hne, hbytes⟩
  refine ⟨hne, ?_⟩
  intro hblank
  simpa using hbytes blank hblank

/-- For every sequence of typed lines: all of them are tokenized exactly, and in
every run with every client each one is dispatched and the session never uses an
element of an empty token vector, if and only if every line before the first
{lit}`exit` has at most 999 characters, one of which is not a blank. -/
theorem session_safe_iff (lines : List Bytes) (hlines : ∀ line ∈ lines, IsLine line) :
    SessionSafe lines ↔
      ∀ line ∈ lines.takeWhile (fun line => !isExitLine line),
        line.length ≤ 999 ∧ ∃ b ∈ line, b ≠ blank := by
  constructor
  · intro hsafe
    by_contra hbad
    rcases exists_not_dispatched hlines hbad [] 0 with ⟨trace, result, hrun, hnot⟩
    exact hnot (hsafe.dispatched oneServer [] trace result hrun)
  · intro hall
    refine ⟨?_, fun _ => rfl, ?_⟩
    · intro line hline
      exact ⟨tokensOf line, tokenize_spec (hlines line hline).1⟩
    · intro c buffer trace result hrun
      exact dispatched_of_exchanges hlines hall hrun

/-- Two commands, with blanks around their tokens, and an {lit}`exit`. -/
theorem session_safe_commands :
    (∀ line ∈ [textBytes " put  key value ", textBytes "get key", textBytes "exit"],
      IsLine line) ∧
    SessionSafe [textBytes " put  key value ", textBytes "get key", textBytes "exit"] := by
  have hlines : ∀ line ∈ [textBytes " put  key value ", textBytes "get key", textBytes "exit"],
      IsLine line := by
    unfold IsLine
    decide
  refine ⟨hlines, (session_safe_iff _ hlines).mpr ?_⟩
  decide

/-- An empty line is one that can be typed; the session uses the first element of
its empty token vector. -/
theorem empty_line_is_not_dispatched :
    (∀ line ∈ [([] : Bytes)], IsLine line) ∧
      (∃ c buffer rc, (session (typed [[]]) buffer 0 c).Exchanges [] ⟨[], .emptyTokens, rc⟩) ∧
      ¬ SessionSafe [[]] := by
  have hrun : (session (typed [[]]) [] 0 oneServer).Exchanges [] ⟨[], .emptyTokens, 0⟩ := by
    rw [typed_cons, session_of_fits (by simp) (by simp) (by simp),
      (tokensOf_eq_nil_iff []).mpr (by simp)]
    exact ⟨rfl, rfl⟩
  refine ⟨?_, ⟨oneServer, [], 0, hrun⟩, ?_⟩
  · simp [IsLine]
  · intro hsafe
    exact (hsafe.dispatched oneServer [] _ _ hrun).tokens rfl

/-! ## The one-time mode -/

theorem oneTime_eq {command : Bytes} (hcommand : 0 ∉ command) (c : Client) :
    oneTime command c =
      (handleCommand (tokensOf command) c).bind fun (outcome, _) =>
        .ret (outcome.map CommandResult.status) := by
  rw [oneTime, tokenize_eq_runs hcommand []]
  rfl

/-- A command of blanks only: the interactive mode leaves its token vector, and
the one-time mode, which goes to the command handler directly, refuses it. -/
theorem clientMain_of_blank {line : Bytes} (hblank : ∀ b ∈ line, b = blank)
    (hfits : line.length ≤ 999) {flagEndpoint : String} {server : Endpoint}
    (hflag : checkEndpointFlag flagEndpoint = .ok (.ok server))
    {connect : Endpoint → Except Exception Client} {c : Client}
    (hconnect : connect server = .ok c) (input buffer : Bytes) :
    clientMain flagEndpoint [] connect (line ++ newline :: input) buffer =
        .ret (.error .outOfBounds) ∧
      (line ≠ [] → clientMain flagEndpoint line connect input buffer = .ret (.ok 1)) := by
  have hnul : 0 ∉ line := by
    intro hmem
    exact absurd (hblank 0 hmem) (by decide)
  have hline : newline ∉ line := by
    intro hmem
    exact absurd (hblank newline hmem) (by decide)
  have htokens := (tokensOf_eq_nil_iff line).mpr hblank
  unfold clientMain
  rw [hflag]
  dsimp only
  rw [hconnect]
  constructor
  · dsimp only
    rw [if_neg (by simp), session_of_fits hnul hline hfits, htokens]
    rfl
  · intro hne
    dsimp only
    rw [if_pos hne, oneTime_eq hnul, htokens]
    rfl

end ReplicatedSplinterDB
