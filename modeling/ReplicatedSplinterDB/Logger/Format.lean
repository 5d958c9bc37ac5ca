import ReplicatedSplinterDB.Logger.Ring

/-!
# Formatting a log message

A message is put together in an array of fixed size by several calls of
{lit}`snprintf` and {lit}`vsnprintf`, through two macros that keep the length so far
and the room that is left.  Each use of a macro takes the whole length so far off
the room that the last one had left, and not only what was added since; so the room
shrinks faster than the array fills up.

Main results:

- Theorem {lit}`formatPart_text`: what one part adds to the message.
- Theorem {lit}`formatting_stays_in_array`: no sequence of parts leaves the array, and
  the array always holds a string that ends.
- Theorem {lit}`log_message_complete_iff`: which messages get into the ring as a whole.
-/

namespace ReplicatedSplinterDB

open Foundation

/-! ## The macros -/

/-- The outcome of formatting a part: a text whose length is an {lit}`int`, or an
error, which leaves any bytes in the room that was given. -/
inductive Formatted where
  | text (bytes : Bytes) (fits : bytes.length < 2 ^ 31)
  | failed (junk : Bytes)

namespace Formatted

/-- The bytes that {lit}`snprintf` stores in a room of the given size: as much of the
text as there is room for, and a byte that ends it. -/
def stored (size : Nat) : Formatted → Bytes
  | .text bytes _ => if size = 0 then [] else bytes.take (size - 1) ++ [0]
  | .failed junk => junk.take size

/-- The result of {lit}`snprintf`: the length of the whole text, or a negative
number. -/
def result : Formatted → Int
  | .text bytes _ => bytes.length
  | .failed _ => -1

end Formatted

/-- The array and the two lengths.  The length of the last part is not kept. -/
structure FormatState where
  msg : Bytes
  curLen : Nat
  availLen : Nat
deriving DecidableEq, Repr

/-- The state before the first part. -/
def FormatState.start (msg : Bytes) : FormatState := ⟨msg, 0, msgSize⟩

/-- {lit}`_snprintf` and {lit}`_vsnprintf`.  The result becomes a {lit}`size_t`. -/
def formatPart (s : FormatState) (part : Formatted) : Except Exception FormatState :=
  let availLen := if s.availLen > s.curLen then s.availLen - s.curLen else 0
  let bytes := part.stored availLen
  if s.msg.length < s.curLen + bytes.length then .error .outOfBounds
  else
    let msgLen := (part.result % 2 ^ 64).toNat
    .ok
      { msg := s.msg.take s.curLen ++ bytes ++ s.msg.drop (s.curLen + bytes.length)
        curLen := s.curLen + if availLen > msgLen then msgLen else availLen
        availLen := availLen }

/-- The message so far, as {lit}`LogElem::write` copies it. -/
def FormatState.content (s : FormatState) : Bytes := s.msg.take s.curLen

/-- The part of {lit}`put` that makes a message for the ring: the header, the text of
the caller, and the place in the source or only the end of the line. -/
def formatMessage (msg : Bytes) (header body trailer : Formatted) : Except Exception Bytes :=
  (runEvents formatPart [header, body, trailer] (.start msg)).map FormatState.content

/-! ## Staying in the array -/

/-- The lengths fit the array. -/
structure FormatState.InArray (s : FormatState) : Prop where
  length : s.msg.length = msgSize
  curLen_le : s.curLen ≤ msgSize
  availLen_le : s.availLen ≤ msgSize

theorem FormatState.inArray_start {msg : Bytes} (h : msg.length = msgSize) :
    (FormatState.start msg).InArray := ⟨h, Nat.zero_le _, Nat.le_refl _⟩

theorem Formatted.length_stored_le (size : Nat) (part : Formatted) :
    (part.stored size).length ≤ size := by
  cases part with
  | text bytes fits =>
      simp only [stored]
      split
      · exact Nat.zero_le _
      · rw [List.length_append, List.length_take, List.length_singleton]
        omega
  | failed junk => exact List.length_take_le _ _

/-- The room that a part gets. -/
def FormatState.room (s : FormatState) : Nat :=
  if s.availLen > s.curLen then s.availLen - s.curLen else 0

theorem FormatState.InArray.room_le {s : FormatState} (h : s.InArray) :
    s.curLen + s.room ≤ msgSize := by
  have hcur := h.curLen_le
  have havail := h.availLen_le
  unfold room
  split
  · omega
  · omega

/-- Every part is stored inside the array. -/
theorem formatPart_eq {s : FormatState} (h : s.InArray) (part : Formatted) :
    ∃ s', formatPart s part = .ok s' ∧ s'.InArray ∧ s'.availLen = s.room ∧
      s'.msg = s.msg.take s.curLen ++ part.stored s.room ++
        s.msg.drop (s.curLen + (part.stored s.room).length) ∧
      s'.curLen = s.curLen + if s.room > (part.result % 2 ^ 64).toNat then
        (part.result % 2 ^ 64).toNat else s.room := by
  have hlength := h.length
  have hroom := h.room_le
  have hstored := part.length_stored_le s.room
  have hcur := h.curLen_le
  have hinside : ¬ s.msg.length < s.curLen + (part.stored s.room).length := by omega
  refine ⟨_, if_neg hinside, ⟨?_, ?_, ?_⟩, rfl, rfl, rfl⟩
  · have hlen : (s.msg.take s.curLen ++ part.stored s.room ++
        s.msg.drop (s.curLen + (part.stored s.room).length)).length = msgSize := by
      rw [List.length_append, List.length_append, List.length_take, List.length_drop]
      omega
    exact hlen
  · have hbound : s.curLen + (if s.room > (part.result % 2 ^ 64).toNat then
        (part.result % 2 ^ 64).toNat else s.room) ≤ msgSize := by
      split
      · omega
      · omega
    exact hbound
  · have hbound : s.room ≤ msgSize := by omega
    exact hbound

/-! ## What a part adds -/

/-- What a text adds to the message in a room of the given size: all of it, or what
there is room for, with the byte that ends it. -/
def written (size : Nat) (bytes : Bytes) : Bytes :=
  if bytes.length < size then bytes else if size = 0 then [] else bytes.take (size - 1) ++ [0]

theorem length_written (size : Nat) (bytes : Bytes) :
    (written size bytes).length = min bytes.length size := by
  unfold written
  split
  · omega
  · split
    · rw [List.length_nil]
      omega
    · rw [List.length_append, List.length_take, List.length_singleton]
      omega

/-- The stored bytes begin with what is added to the message. -/
theorem take_stored (size : Nat) (bytes : Bytes) (fits : bytes.length < 2 ^ 31) :
    ((Formatted.text bytes fits).stored size).take (min bytes.length size) =
      written size bytes := by
  unfold written
  simp only [Formatted.stored]
  by_cases hsize : size = 0
  · simp [hsize]
  · rw [if_neg hsize]
    split
    · rename_i hfits
      have hall : bytes.take (size - 1) = bytes := List.take_of_length_le (by omega)
      rw [hall, Nat.min_eq_left hfits.le, List.take_left]
    · rename_i hlong
      have hlen : (bytes.take (size - 1) ++ [(0 : UInt8)]).length = size := by
        rw [List.length_append, List.length_take, List.length_singleton]
        omega
      rw [Nat.min_eq_right (Nat.not_lt.mp hlong)]
      exact List.take_of_length_le hlen.le

/-- A text is added to the message as far as there is room for it. -/
theorem formatPart_text {s : FormatState} (h : s.InArray) (bytes : Bytes)
    (fits : bytes.length < 2 ^ 31) :
    ∃ s', formatPart s (.text bytes fits) = .ok s' ∧ s'.InArray ∧ s'.availLen = s.room ∧
      s'.content = s.content ++ written s.room bytes ∧
      s'.curLen = s.curLen + (written s.room bytes).length := by
  rcases formatPart_eq h (.text bytes fits) with ⟨s', hstep, hin, havail, hmsg, hcur⟩
  have hresult : ((Formatted.text bytes fits).result % 2 ^ 64).toNat = bytes.length := by
    simp only [Formatted.result]
    omega
  have hcur' : s'.curLen = s.curLen + (written s.room bytes).length := by
    rw [hcur, hresult, length_written]
    split
    · omega
    · omega
  have hbefore : (s.msg.take s.curLen).length = s.curLen := by
    have hlength := h.length
    have hle := h.curLen_le
    rw [List.length_take]
    omega
  have hstored : (written s.room bytes).length ≤
      ((Formatted.text bytes fits).stored s.room).length := by
    rw [← take_stored s.room bytes fits]
    exact List.length_take_le' _ _
  refine ⟨s', hstep, hin, havail, ?_, hcur'⟩
  unfold FormatState.content
  rw [hmsg, hcur', List.append_assoc, List.take_append, hbefore, List.take_of_length_le (by omega),
    Nat.add_sub_cancel_left, List.take_append_of_le_length hstored, length_written, take_stored]

/-- The array holds a string that ends, at the latest where the message ends. -/
def FormatState.Terminated (s : FormatState) : Prop := (0 : UInt8) ∈ s.msg.take (s.curLen + 1)

/-- A text leaves a string in the array that ends. -/
theorem formatPart_terminated {s s' : FormatState} (h : s.InArray) {bytes : Bytes}
    {fits : bytes.length < 2 ^ 31} (hstep : formatPart s (.text bytes fits) = .ok s')
    (hbefore : s.Terminated ∨ 0 < s.room) : s'.Terminated := by
  rcases formatPart_eq h (.text bytes fits) with ⟨next, hnext, -, -, hmsg, hcur⟩
  rw [hstep] at hnext
  cases hnext
  have hresult : ((Formatted.text bytes fits).result % 2 ^ 64).toNat = bytes.length := by
    simp only [Formatted.result]
    omega
  have hlength := h.length
  have hle := h.curLen_le
  have hroom := h.room_le
  rw [hresult] at hcur
  unfold FormatState.Terminated
  rw [hmsg, hcur]
  by_cases hzero : s.room = 0
  · -- nothing is stored, and the string in the array is the old one
    have hnone : (Formatted.text bytes fits).stored s.room = [] := by
      rw [hzero]
      rfl
    have hold := hbefore.resolve_right (by omega)
    rw [hnone, hzero, if_neg (by omega)]
    simpa [FormatState.Terminated] using hold
  · have hstored : (Formatted.text bytes fits).stored s.room =
        bytes.take (s.room - 1) ++ [0] := by
      simp only [Formatted.stored, if_neg hzero]
    have hposition : s.curLen + (bytes.take (s.room - 1)).length <
        s.curLen + (if s.room > bytes.length then bytes.length else s.room) + 1 := by
      rw [List.length_take]
      split
      · omega
      · omega
    have hend : (s.msg.take s.curLen ++ (bytes.take (s.room - 1) ++ [(0 : UInt8)]) ++
        s.msg.drop (s.curLen + (bytes.take (s.room - 1) ++ [(0 : UInt8)]).length))[
          s.curLen + (bytes.take (s.room - 1)).length]? = some 0 := by
      have hfront : (s.msg.take s.curLen).length = s.curLen := by
        rw [List.length_take]
        omega
      rw [List.append_assoc, List.getElem?_append_right (by omega), hfront,
        Nat.add_sub_cancel_left, List.append_assoc, List.getElem?_append_right (Nat.le_refl _),
        Nat.sub_self]
      rfl
    rw [hstored]
    apply List.mem_of_getElem?
    rw [List.getElem?_take_of_lt hposition]
    exact hend

/-- A run of texts leaves a string that ends.  The induction is on the parts. -/
theorem terminated_of_texts {parts : List Formatted}
    (htexts : ∀ part ∈ parts, ∀ junk, part ≠ .failed junk) {s s' : FormatState} (hs : s.InArray)
    (hbefore : s.Terminated ∨ (parts ≠ [] ∧ 0 < s.room))
    (hrun : runEvents formatPart parts s = .ok s') : s'.Terminated := by
  induction parts generalizing s with
  | nil =>
      cases hrun
      exact hbefore.resolve_right fun h => h.1 rfl
  | cons part parts ih =>
      rw [List.forall_mem_cons] at htexts
      cases part with
      | failed junk => exact absurd rfl (htexts.1 junk)
      | text bytes fits =>
          rcases formatPart_eq hs (.text bytes fits) with ⟨next, hstep, hnext, -⟩
          have hends := formatPart_terminated hs hstep (hbefore.imp_right And.right)
          simp only [runEvents, hstep] at hrun
          exact ih htexts.2 hnext (.inl hends) hrun

/-- For every number of parts, and whatever is in the array at first: the parts are
formatted without a byte outside the array, and the length of the message is at
most the size of the array.  If there is a part and none fails, the array holds a
string that ends inside it. -/
theorem formatting_stays_in_array (msg : Bytes) (hmsg : msg.length = msgSize)
    (parts : List Formatted) :
    ∃ s, runEvents formatPart parts (.start msg) = .ok s ∧ s.msg.length = msgSize ∧
      s.curLen ≤ msgSize ∧
      (parts ≠ [] → (∀ part ∈ parts, ∀ junk, part ≠ .failed junk) →
        ∃ i < msgSize, s.msg[i]? = some 0) := by
  have hstart := FormatState.inArray_start hmsg
  have hstep : ∀ (s : FormatState) (part : Formatted), s.InArray → True →
      ∃ s', formatPart s part = .ok s' ∧ s'.InArray := by
    intro s part hs _
    rcases formatPart_eq hs part with ⟨s', hnext, hs', -⟩
    exact ⟨s', hnext, hs'⟩
  rcases runEvents_completes hstep hstart (admissible_of_forall (fun _ _ => trivial) parts _) with
    ⟨s, hrun, hs⟩
  refine ⟨s, hrun, hs.length, hs.curLen_le, ?_⟩
  intro hne htexts
  have hroom : 0 < (FormatState.start msg).room := by
    change 0 < if msgSize > 0 then msgSize - 0 else 0
    decide
  have hends := terminated_of_texts htexts hstart (.inr ⟨hne, hroom⟩) hrun
  rcases List.mem_iff_getElem?.mp hends with ⟨i, hi⟩
  rw [List.getElem?_take] at hi
  split at hi
  · have hlt := (List.getElem?_eq_some_iff.mp hi).1
    rw [hs.length] at hlt
    exact ⟨i, hlt, hi⟩
  · cases hi

/-- A text of one byte, and a part that fails and leaves a byte in the array. -/
theorem formatting_stays_in_array_failed :
    ∃ s, runEvents formatPart [.text [65] (by decide), .failed [7]]
        (.start (List.replicate msgSize 1)) = .ok s ∧
      s.msg.length = msgSize ∧ s.curLen ≤ msgSize := by
  rcases formatting_stays_in_array (List.replicate msgSize 1) List.length_replicate
    [.text [65] (by decide), .failed [7]] with ⟨s, hrun, hlength, hcur, -⟩
  exact ⟨s, hrun, hlength, hcur⟩

/-! ## Which messages are complete -/

/-- A text that is cut off has a byte at its end that no text contains. -/
theorem lt_of_notMem_written {size : Nat} {bytes : Bytes} (h : 0 ∉ written size bytes)
    (hsize : size ≠ 0) : bytes.length < size := by
  by_contra hlong
  apply h
  rw [written, if_neg hlong, if_neg hsize]
  exact List.mem_append_right _ List.mem_cons_self

theorem written_of_lt {size : Nat} {bytes : Bytes} (h : bytes.length < size) :
    written size bytes = bytes := if_pos h

theorem written_of_le {size : Nat} {bytes : Bytes} (hsize : size ≠ 0) (h : size ≤ bytes.length) :
    written size bytes = bytes.take (size - 1) ++ [0] := by
  rw [written, if_neg (Nat.not_lt.mpr h), if_neg hsize]

theorem written_zero (bytes : Bytes) : written 0 bytes = [] := by
  rw [written, if_neg (Nat.not_lt_zero _), if_pos rfl]

theorem FormatState.room_eq (s : FormatState) : s.room = s.availLen - s.curLen := by
  unfold room
  split
  · rfl
  · omega

/-- The message that three texts make. -/
theorem formatMessage_eq {msg : Bytes} (hmsg : msg.length = msgSize) {header body trailer : Bytes}
    (hheader : header.length < 2 ^ 31) (hbody : body.length < 2 ^ 31)
    (htrailer : trailer.length < 2 ^ 31) :
    ∃ first second third, formatMessage msg (.text header hheader) (.text body hbody)
        (.text trailer htrailer) = .ok (first ++ second ++ third) ∧
      (first ++ second ++ third).length ≤ msgSize ∧
      first = written msgSize header ∧ second = written (msgSize - first.length) body ∧
      third = written (msgSize - first.length - (first.length + second.length)) trailer := by
  rcases formatPart_text (FormatState.inArray_start hmsg) header hheader with
    ⟨s₁, h₁, hin₁, havail₁, hcontent₁, hcur₁⟩
  rcases formatPart_text hin₁ body hbody with ⟨s₂, h₂, hin₂, havail₂, hcontent₂, hcur₂⟩
  rcases formatPart_text hin₂ trailer htrailer with ⟨s₃, h₃, hin₃, -, hcontent₃, hcur₃⟩
  have hroom₀ : (FormatState.start msg).room = msgSize := rfl
  have hempty : (FormatState.start msg).content = [] := List.take_zero
  have hzero : (FormatState.start msg).curLen = 0 := rfl
  rw [hroom₀] at havail₁ hcontent₁ hcur₁
  rw [hempty, List.nil_append] at hcontent₁
  rw [hzero, Nat.zero_add] at hcur₁
  have hroom₁ : s₁.room = msgSize - (written msgSize header).length := by
    rw [s₁.room_eq, havail₁, hcur₁]
  rw [hroom₁] at havail₂ hcontent₂ hcur₂
  rw [hcur₁] at hcur₂
  have hroom₂ := s₂.room_eq
  rw [havail₂, hcur₂] at hroom₂
  rw [hroom₂, hcontent₂, hcontent₁] at hcontent₃
  refine ⟨_, _, _, ?_, ?_, rfl, rfl, rfl⟩
  · simp only [formatMessage, runEvents, h₁, h₂, h₃, Except.map, hcontent₃]
  · rw [← hcontent₃]
    exact (List.length_take_le _ _).trans hin₃.curLen_le

/-- What is kept of three texts in an array.  The first two are cut off at its end;
the third one has only the room that is left when the first one is taken off twice,
and none if that is nothing.  A text that is cut off has a NUL byte at its end. -/
def keptText (size : Nat) (header body trailer : Bytes) : Bytes :=
  if 2 * header.length + body.length + trailer.length < size then header ++ body ++ trailer
  else if size ≤ header.length + body.length then
    (header ++ body ++ trailer).take (size - 1) ++ [0]
  else if size ≤ 2 * header.length + body.length then header ++ body
  else (header ++ body ++ trailer).take (size - header.length - 1) ++ [0]

section Three

-- what three texts add to an array, each with the room that the one before it leaves
variable {size : Nat} {header body trailer first second third : Bytes}
  (hfirst : first = written size header) (hsecond : second = written (size - first.length) body)
  (hthird : third = written (size - first.length - (first.length + second.length)) trailer)

include hfirst hsecond hthird

/-- Three texts are there as a whole if there is room for the first one twice.  A
text that was cut off would have left a NUL byte. -/
theorem whole_iff_of_written (hsize : size ≠ 0) (hnul : 0 ∉ header ++ body ++ trailer)
    (hne : trailer ≠ []) :
    first ++ second ++ third = header ++ body ++ trailer ↔
      2 * header.length + body.length + trailer.length < size := by
  constructor
  · intro hwhole
    rw [← hwhole] at hnul
    simp only [List.mem_append, not_or] at hnul
    have hshort : header.length < size := lt_of_notMem_written (hfirst ▸ hnul.1.1) hsize
    have hfirst' : first = header := hfirst.trans (if_pos hshort)
    have hshort' : body.length < size - header.length := by
      apply lt_of_notMem_written
      · rw [← hfirst', ← hsecond]
        exact hnul.1.2
      · omega
    have hsecond' : second = body := by
      rw [hsecond, hfirst']
      exact if_pos hshort'
    rw [hfirst', hsecond'] at hwhole hthird
    have hthird' : third = trailer := List.append_cancel_left hwhole
    have hlast : trailer.length < size - header.length - (header.length + body.length) := by
      apply lt_of_notMem_written
      · rw [← hthird]
        exact hnul.2
      · intro hzero
        rw [hzero, written_zero] at hthird
        exact hne (hthird'.symm.trans hthird)
    omega
  · intro hroom
    have hfirst' : first = header := hfirst.trans (if_pos (by omega))
    have hsecond' : second = body := by
      rw [hsecond, hfirst']
      exact if_pos (by omega)
    have hthird' : third = trailer := by
      rw [hthird, hfirst', hsecond']
      exact if_pos (by omega)
    rw [hfirst', hsecond', hthird']

/-- What is there is the text that is kept of the three.  The cases are which text
is the first one that was cut off; it leaves no room for those behind it. -/
theorem kept_of_written (hsize : size ≠ 0) :
    first ++ second ++ third = keptText size header body trailer := by
  unfold keptText
  by_cases hheader : header.length < size
  · rw [written_of_lt hheader] at hfirst
    subst hfirst
    by_cases hbody : body.length < size - first.length
    · rw [written_of_lt hbody] at hsecond
      subst hsecond
      rw [if_neg (show ¬ size ≤ first.length + second.length by omega)]
      by_cases hroom : size ≤ 2 * first.length + second.length
      · have hnone : size - first.length - (first.length + second.length) = 0 := by omega
        rw [hthird, hnone, written_zero, if_neg (by omega), if_pos hroom, List.append_nil]
      · by_cases htrailer : trailer.length < size - first.length - (first.length + second.length)
        · rw [hthird, written_of_lt htrailer, if_pos (by omega)]
        · have hcut : size - first.length - 1 = (first ++ second).length +
              (size - first.length - (first.length + second.length) - 1) := by
            rw [List.length_append]
            omega
          rw [hthird, written_of_le (by omega) (by omega), if_neg (by omega), if_neg hroom, hcut,
            List.take_length_add_append]
          simp only [List.append_assoc]
    · have hfull : second.length = size - first.length := by
        rw [hsecond, length_written]
        omega
      have hnone : size - first.length - (first.length + second.length) = 0 := by omega
      have hcut : size - 1 = first.length + (size - first.length - 1) := by omega
      rw [hthird, hnone, written_zero, List.append_nil, if_neg (by omega), if_pos (by omega),
        hsecond, written_of_le (by omega) (by omega), hcut, List.append_assoc first,
        List.take_length_add_append, List.take_append_of_le_length (by omega),
        List.append_assoc]
  · have hfull : first.length = size := by
      rw [hfirst, length_written]
      omega
    have hnone : size - first.length = 0 := by omega
    rw [hthird, hsecond, hnone, Nat.zero_sub, written_zero, written_zero, List.append_nil,
      List.append_nil, if_neg (by omega), if_pos (by omega), hfirst,
      written_of_le hsize (by omega), List.append_assoc,
      List.take_append_of_le_length (by omega)]

end Three

/-- For every array of the size of an element, and every header, text and end of a
message whose lengths are {lit}`int`s, without NUL bytes and with an end that is not
empty: a message is made that fits an element of the ring.  It is the whole text if
and only if twice the header, the text and the end together are shorter than the
array; otherwise it is exactly the beginning of the whole text that is kept. -/
theorem log_message_complete_iff (msg : Bytes) (hmsg : msg.length = msgSize)
    (header body trailer : Bytes) (hheader : header.length < 2 ^ 31)
    (hbody : body.length < 2 ^ 31) (htrailer : trailer.length < 2 ^ 31)
    (hnul : 0 ∉ header ++ body ++ trailer) (hne : trailer ≠ []) :
    ∃ message, formatMessage msg (.text header hheader) (.text body hbody)
        (.text trailer htrailer) = .ok message ∧
      message.length ≤ msgSize ∧
      (message = header ++ body ++ trailer ↔
        2 * header.length + body.length + trailer.length < msgSize) ∧
      message = keptText msgSize header body trailer := by
  rcases formatMessage_eq hmsg hheader hbody htrailer with
    ⟨first, second, third, hrun, hlen, hfirst, hsecond, hthird⟩
  have hsize : msgSize ≠ 0 := by decide
  exact ⟨_, hrun, hlen, whole_iff_of_written hfirst hsecond hthird hsize hnul hne,
    kept_of_written hfirst hsecond hthird hsize⟩

/-- A short message is complete. -/
theorem log_message_complete_short :
    formatMessage (List.replicate msgSize 1) (.text [91, 93, 32] (by decide))
      (.text [104, 105] (by decide)) (.text [10] (by decide)) = .ok [91, 93, 32, 104, 105, 10] := by
  rcases log_message_complete_iff (List.replicate msgSize 1) List.length_replicate [91, 93, 32]
    [104, 105] [10] (by decide) (by decide) (by decide) (by decide) (by decide) with
    ⟨message, hrun, -, hcomplete, -⟩
  rw [hrun, hcomplete.mpr (by decide)]
  rfl

end ReplicatedSplinterDB
