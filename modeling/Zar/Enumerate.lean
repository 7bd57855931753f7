import Mathlib.Data.List.TakeWhile
import Zar.Exception
/-!
# Enumerates as text

The operators that `ENUM_DEFINE_STREAM_OPERATORS` makes from an `ENUM_LIST`. The one that
reads from a stream fetches the text with `getline` up to a NUL, and leaves the rest to the
one that reads from a string.
-/

namespace Zar

/-- An `ENUM_LIST` of strings that are distinct and hold no NUL. -/
structure EnumList (α : Type) where
  list : List (α × Bytes)
  /-- `static_cast<unsigned>`. -/
  unsigned : α → UInt32
  nodup : (list.map Prod.snd).Nodup
  nulFree : ∀ e ∈ list, 0 ∉ e.2

/-- `ENUM_FAIL_INPUT`. -/
def enumFailInput (enumerate : Bytes) : Thrown :=
  .texception .invalid_value (text "Enumerate out of range during input, value '" ++ enumerate ++ text "'")

/-- `ENUM_FAIL_OUTPUT`. -/
def enumFailOutput (enumerate : UInt32) : Thrown :=
  .texception .invalid_value
    (text "Enumerate out of range during output, value '" ++ text (toString enumerate.toNat) ++ text "'")

/-- A `std::istream` with what it still holds. -/
structure IStream where
  unread : Bytes
  eof : Bool := false
  fail : Bool := false
  deriving DecidableEq, Repr

/-- `std::getline(stream, str, delimiter)`. -/
def getline (stream : IStream) (str : Bytes) (delimiter : UInt8) : IStream × Bytes :=
  if stream.eof || stream.fail then ({ stream with fail := true }, str)
  else
    let line := stream.unread.takeWhile (· ≠ delimiter)
    match stream.unread.dropWhile (· ≠ delimiter) with
    | [] => ({ unread := [], eof := true, fail := line.isEmpty }, line)
    | _ :: unread => ({ stream with unread := unread }, line)

namespace EnumList
variable {α : Type}

/-- The comparisons of `operator>>` with one string of the list behind the other. -/
def input (lhs : Bytes) (rhs : α) : List (α × Bytes) → α × Option Thrown
  | [] => (rhs, some (enumFailInput lhs))
  | (enumerate, string) :: list => if lhs = string then (enumerate, none) else input lhs rhs list

/-- The `switch` of `operator<<`. -/
def output [DecidableEq α] (unsigned : α → UInt32) (lhs : Bytes) (rhs : α) : List (α × Bytes) → Bytes × Option Thrown
  | [] => (lhs, some (enumFailOutput (unsigned rhs)))
  | (enumerate, string) :: list => if rhs = enumerate then (string, none) else output unsigned lhs rhs list

/-- `operator>>(const std::string&, T&)`: the target behind it, and what it threw. -/
def readString (l : EnumList α) (lhs : Bytes) (rhs : α) : α × Option Thrown := input lhs rhs l.list

/-- `operator>>(std::istream&, T&)`. -/
def readStream (l : EnumList α) (lhs : IStream) (rhs : α) : IStream × α × Option Thrown :=
  let (lhs, str) := getline lhs [] 0
  (lhs, l.readString str rhs)

/-- `operator<<(std::string&, T)`. -/
def writeString [DecidableEq α] (l : EnumList α) (lhs : Bytes) (rhs : α) : Bytes × Option Thrown :=
  output l.unsigned lhs rhs l.list

/-- `operator<<(std::ostream&, T)`, with the text in the stream. -/
def writeStream [DecidableEq α] (l : EnumList α) (lhs : Bytes) (rhs : α) : Bytes × Option Thrown :=
  match l.writeString [] rhs with
  | (str, none) => (lhs ++ str, none)
  | (_, some t) => (lhs, some t)

/-! ## Strings -/

theorem input_of_mem {list : List (α × Bytes)} (hn : (list.map Prod.snd).Nodup) {v : α} {s : Bytes} (h : (v, s) ∈ list)
    (rhs : α) : input s rhs list = (v, none) := by
  induction list with
  | nil => exact absurd h List.not_mem_nil
  | cons e list ih =>
    obtain ⟨hfresh, hn⟩ := List.nodup_cons.1 hn
    rcases List.mem_cons.1 h with rfl | h
    · simp [input]
    · have hne : s ≠ e.2 := by
        rintro rfl
        exact hfresh (List.mem_map.2 ⟨_, h, rfl⟩)
      simp only [input, hne, if_false]
      exact ih hn h

theorem input_of_notMem {list : List (α × Bytes)} {s : Bytes} (h : s ∉ list.map Prod.snd) (rhs : α) :
    input s rhs list = (rhs, some (enumFailInput s)) := by
  induction list with
  | nil => rfl
  | cons e list ih =>
    have hne : s ≠ e.2 := fun he => h (he ▸ List.mem_cons_self)
    simp only [input, hne, if_false]
    exact ih fun hm => h (List.mem_cons_of_mem _ hm)

theorem output_of_mem [DecidableEq α] {list : List (α × Bytes)} {v : α} (h : v ∈ list.map Prod.fst)
    (unsigned : α → UInt32) (lhs : Bytes) : ∃ s, (v, s) ∈ list ∧ output unsigned lhs v list = (s, none) := by
  induction list with
  | nil => exact absurd h List.not_mem_nil
  | cons e list ih =>
    obtain ⟨enumerate, string⟩ := e
    by_cases hv : v = enumerate
    · subst hv
      exact ⟨string, List.mem_cons_self, by simp [output]⟩
    · have hm : v ∈ list.map Prod.fst := (List.mem_cons.1 h).resolve_left hv
      obtain ⟨s, hs, ho⟩ := ih hm
      exact ⟨s, List.mem_cons_of_mem _ hs, by simp only [output, hv, if_false, ho]⟩

variable (l : EnumList α)

/-- The strings of the list. -/
def strings : List Bytes := l.list.map Prod.snd

theorem readString_throws_iff {s : Bytes} {rhs : α} : (l.readString s rhs).2.isSome ↔ s ∉ l.strings := by
  constructor
  · intro h hm
    obtain ⟨e, he, rfl⟩ := List.mem_map.1 hm
    rw [readString, input_of_mem l.nodup he] at h
    cases h
  · intro h
    rw [readString, input_of_notMem h]
    rfl

theorem strings_nulFree {s : Bytes} (h : s ∈ l.strings) : 0 ∉ s := by
  obtain ⟨e, he, rfl⟩ := List.mem_map.1 h
  exact l.nulFree e he

/-! ## Streams -/

/-- What the stream holds in front of its first NUL. -/
def line (s : Bytes) : Bytes := s.takeWhile (· ≠ 0)

theorem line_of_nulFree {s : Bytes} (h : 0 ∉ s) : line s = s := by
  apply List.takeWhile_eq_self_iff.2
  intro b hb
  have hne : b ≠ 0 := fun h0 => h (h0 ▸ hb)
  simpa using hne

theorem getline_str (s str : Bytes) : (getline ⟨s, false, false⟩ str 0).2 = line s := by
  unfold getline
  simp only [Bool.or_self, Bool.false_eq_true, if_false]
  split <;> rfl

theorem readStream_eq (s : Bytes) (rhs : α) : (l.readStream ⟨s, false, false⟩ rhs).2 = l.readString (line s) rhs := by
  have h := getline_str s []
  unfold readStream
  rw [← h]

/-- The two inputs agree on what holds no NUL, and where both throw. -/
theorem agree_iff (s : Bytes) (rhs : α) :
    ((l.readStream ⟨s, false, false⟩ rhs).2.1 = (l.readString s rhs).1 ∧
      (l.readStream ⟨s, false, false⟩ rhs).2.2.isSome = (l.readString s rhs).2.isSome) ↔
    0 ∉ s ∨ line s ∉ l.strings := by
  rw [readStream_eq]
  constructor
  · rintro ⟨-, hthrown⟩
    by_cases h0 : 0 ∈ s
    · refine .inr fun hline => ?_
      have hs : s ∉ l.strings := fun hm => l.strings_nulFree hm h0
      have hthrows : (l.readString s rhs).2.isSome := l.readString_throws_iff.2 hs
      rw [← hthrown] at hthrows
      exact l.readString_throws_iff.1 hthrows hline
    · exact .inl h0
  · rintro (h0 | hline)
    · rw [line_of_nulFree h0]
      exact ⟨rfl, rfl⟩
    · have hs : s ∉ l.strings := by
        intro hm
        rw [line_of_nulFree (l.strings_nulFree hm)] at hline
        exact hline hm
      rw [readString, readString, input_of_notMem hline, input_of_notMem hs]
      exact ⟨rfl, rfl⟩

/-- What is listed is assigned and the rest thrown; a stream is read up to its first NUL, and what
was written reads back. -/
theorem enumerate_text [DecidableEq α] (l : EnumList α) :
    (∀ s rhs, (∀ v, (v, s) ∈ l.list → l.readString s rhs = (v, none)) ∧
      (s ∉ l.strings → l.readString s rhs = (rhs, some (enumFailInput s)))) ∧
    (∀ s rhs, (l.readStream ⟨s, false, false⟩ rhs).2 = l.readString (s.takeWhile (· ≠ 0)) rhs) ∧
    (∀ s rhs, 0 ∉ s → (l.readStream ⟨s, false, false⟩ rhs).2 = l.readString s rhs) ∧
    (∀ s rhs, ((l.readStream ⟨s, false, false⟩ rhs).2.1 = (l.readString s rhs).1 ∧
        (l.readStream ⟨s, false, false⟩ rhs).2.2.isSome = (l.readString s rhs).2.isSome) ↔
      0 ∉ s ∨ s.takeWhile (· ≠ 0) ∉ l.strings) ∧
    ∀ v ∈ l.list.map Prod.fst, ∀ rhs, ∃ s,
      l.writeString [] v = (s, none) ∧ l.readString s rhs = (v, none) ∧
      l.writeStream [] v = (s, none) ∧ (l.readStream ⟨s, false, false⟩ rhs).2 = (v, none) := by
  refine ⟨fun s rhs => ⟨fun v hv => input_of_mem l.nodup hv rhs, fun hs => input_of_notMem hs rhs⟩,
    l.readStream_eq, ?_, l.agree_iff, ?_⟩
  · intro s rhs h0
    rw [readStream_eq, line_of_nulFree h0]
  · intro v hv rhs
    obtain ⟨s, hs, hwrite⟩ := output_of_mem hv l.unsigned []
    have hread : l.readString s rhs = (v, none) := input_of_mem l.nodup hs rhs
    have hwrite : l.writeString [] v = (s, none) := hwrite
    refine ⟨s, hwrite, hread, ?_, ?_⟩
    · simp [writeStream, hwrite]
    · rw [readStream_eq, line_of_nulFree (l.nulFree _ hs), hread]

end EnumList

def ExceptionType.unsigned : ExceptionType → UInt32
  | .invalid_value => 0
  | .busy => 1
  | .no_access => 2
  | .protocol_error => 3
  | .socket_error => 4
  | .not_implemented_yet => 5
  | .internal_failure => 6

/-- The `ENUM_LIST` of `texception::ttype`. -/
def ExceptionType.enumList : EnumList ExceptionType where
  list := [(.invalid_value, text "E_INVALID_VALUE"), (.busy, text "E_BUSY"), (.no_access, text "E_NO_ACCESS"),
    (.protocol_error, text "E_PROTOCOL_ERROR"), (.socket_error, text "E_SOCKET_ERROR"),
    (.not_implemented_yet, text "E_NOT_IMPLEMENTED"), (.internal_failure, text "E_INTERNAL_FAILURE")]
  unsigned := ExceptionType.unsigned
  nodup := by decide
  nulFree := by decide

/-- A NUL behind a listed string: the stream gives the value, the string is not listed. -/
theorem enumerate_text_nul :
    ¬ ∀ (s : Bytes) (rhs : ExceptionType),
      ((ExceptionType.enumList.readStream ⟨s, false, false⟩ rhs).2.1 = (ExceptionType.enumList.readString s rhs).1 ∧
        (ExceptionType.enumList.readStream ⟨s, false, false⟩ rhs).2.2.isSome =
          (ExceptionType.enumList.readString s rhs).2.isSome) := by
  intro h
  obtain ⟨-, hthrown⟩ := h (text "E_BUSY" ++ [0]) .invalid_value
  exact absurd hthrown (by decide)

end Zar
