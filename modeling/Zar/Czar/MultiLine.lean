import Zar.Czar.Steps
import Zar.Lib.Separated
/-!
# Commands of several lines

Lines are typed, and those between `/begin` and `/end` are a block. `Documented`
is what the manual says is sent for them, `Item.sent` what the client sends: it
skips blank lines also in a block, and does not strip the last end of line. The
two agree exactly on blocks that end with their only blank line, and on empty
ones.
-/

namespace Zar

/-- A line that the client handles itself. -/
def Slashed (line : Bytes) : Prop := line.head? = some 47

instance (line : Bytes) : Decidable (Slashed line) := inferInstanceAs (Decidable (line.head? = some 47))

/-- What was typed: a line outside of a block, or a block that was ended. -/
inductive Item where
  | line (line : Bytes)
  | block (lines : List Bytes)
  deriving DecidableEq, Repr

def Item.lines : Item → List Bytes
  | .line l => [l]
  | .block ls => ls

/-- A line is typed outside of a block, or in a block with these lines so far. -/
def advance : Option (List Bytes) → Bytes → Option (List Bytes) × List Item
  | none, line => if line = text "/begin" then (some [], []) else (none, [.line line])
  | some block, line => if line = text "/end" then (none, [.block block]) else (some (block ++ [line]), [])

def items : Option (List Bytes) → List Bytes → List Item
  | _, [] => []
  | typed, line :: lines => (advance typed line).2 ++ items (advance typed line).1 lines

/-- The block that the lines leave open. -/
def openBlock (typed : Option (List Bytes)) (lines : List Bytes) : Option (List Bytes) :=
  lines.foldl (fun typed line => (advance typed line).1) typed

/-- The manual asks for no action, or it does not say for which. -/
def Item.Silent : Item → Prop
  | .line l => l = [] ∨ Slashed l
  | .block lines => ∃ line ∈ lines, Slashed line

instance : (i : Item) → Decidable i.Silent
  | .line l => inferInstanceAs (Decidable (l = [] ∨ Slashed l))
  | .block lines => inferInstanceAs (Decidable (∃ line ∈ lines, Slashed line))

/-- The actions that the manual asks for. What a block with slashed lines sends is not
defined. -/
inductive Documented : List Item → List Bytes → Prop
  | nil : Documented [] []
  | skip {line : Bytes} {is : List Item} {sent : List Bytes} (h : line = [] ∨ Slashed line) (hd : Documented is sent) :
      Documented (.line line :: is) sent
  | line {line : Bytes} {is : List Item} {sent : List Bytes} (h : ¬ (line = [] ∨ Slashed line)) (hd : Documented is sent) :
      Documented (.line line :: is) (line :: sent)
  | block {lines : List Bytes} {is : List Item} {sent : List Bytes} (h : ∀ line ∈ lines, ¬ Slashed line)
      (hd : Documented is sent) : Documented (.block lines :: is) ([10].intercalate lines :: sent)
  | undefined {lines : List Bytes} {is : List Item} {sent : List Bytes} (h : ∃ line ∈ lines, Slashed line)
      (actions : List Bytes) (hd : Documented is sent) : Documented (.block lines :: is) (actions ++ sent)

/-- The actions sent for what was typed are those of the manual, and no line of them is
slashed. -/
def AsDocumented (lines sent : List Bytes) : Prop :=
  Documented (items none lines) sent ∧ ∀ action ∈ sent, ∀ line ∈ action.splitOn 10, ¬ Slashed line

/-- A block that is empty, or ends with its only blank line. -/
def Tidy (lines : List Bytes) : Prop := lines = [] ∨ ∃ init, lines = init ++ [[]] ∧ [] ∉ init

/-! ## What the client sends -/

/-- The lines that get to `execute_server`. -/
def kept (lines : List Bytes) : List Bytes := lines.filter fun line => ¬ (line = [] ∨ Slashed line)

def Item.sent : Item → List Bytes
  | .line l => kept [l]
  | .block lines => [ended 10 (kept lines)]

theorem kept_append (lines lines' : List Bytes) : kept (lines ++ lines') = kept lines ++ kept lines' := List.filter_append ..

theorem kept_skip {line : Bytes} (h : line = [] ∨ Slashed line) : kept [line] = [] := by
  simpa [kept, ← or_iff_not_imp_left] using h

theorem kept_line {line : Bytes} (h : ¬ (line = [] ∨ Slashed line)) : kept [line] = [line] := List.filter_eq_self.2 (by simpa using h)

theorem mem_kept {line : Bytes} {lines : List Bytes} : line ∈ kept lines ↔ line ∈ lines ∧ line ≠ [] ∧ ¬ Slashed line := by
  simp [kept]

namespace Application

variable {a : Application}

/-- What was passed to `socket_.send_action`. -/
def actions (a : Application) : List Bytes := a.socket.sender.called.map (·.contents)

theorem sendAction_actions (hs : a.socket.sender.strand = true) (action : Bytes) :
    (a.sendAction action).actions = a.actions ++ [action] := by
  simp [sendAction, TcpSocket.sendAction, actions, request_strand hs, Request.message]

theorem parseLine_cases (line : Bytes) :
    (line = [] ∧ parseLine line = .blank) ∨ (line = text "/begin" ∧ parseLine line = .begin) ∨
    (line = text "/end" ∧ parseLine line = .end) ∨
    (Slashed line ∧ line ≠ text "/begin" ∧ line ≠ text "/end" ∧
      ((∃ server, parseLine line = .connect server) ∨ ∃ command, parseLine line = .unknown command)) ∨
    (line ≠ [] ∧ ¬ Slashed line ∧ parseLine line = .server line) := by
  have hbegin : text "/begin" = 47 :: beginCmd := by decide
  have hend : text "/end" = 47 :: endCmd := by decide
  cases line with
  | nil => exact .inl ⟨rfl, rfl⟩
  | cons b line =>
    by_cases hb : b = 47
    · subst hb
      refine .inr ?_
      by_cases h1 : line = beginCmd
      · exact .inl ⟨by rw [hbegin, h1], by simp [parseLine, h1]⟩
      · refine .inr ?_
        by_cases h2 : line = endCmd
        · exact .inl ⟨by rw [hend, h2], by simp [parseLine, h2, show endCmd ≠ beginCmd by decide]⟩
        · refine .inr (.inl ⟨rfl, by simpa [hbegin] using h1, by simpa [hend] using h2, ?_⟩)
          by_cases h3 : substr line 0 connectCmd.length = connectCmd
          · refine .inl ⟨line.drop connectCmd.length, ?_⟩
            simp only [parseLine, List.headD_cons, List.drop_one, List.tail_cons, h1, h2, h3, if_true, if_false, reduceCtorEq]
          · refine .inr ⟨line, ?_⟩
            simp only [parseLine, List.headD_cons, List.drop_one, List.tail_cons, h1, h2, h3, if_true, if_false, reduceCtorEq]
    · refine .inr (.inr (.inr (.inr ⟨by simp, by simp [Slashed, hb], ?_⟩)))
      simp [parseLine, hb]

end Application

/-! ## Against the manual -/

section
variable {typed : Option (List Bytes)} {lines : List Bytes} {is : List Item} {sent : List Bytes}

theorem items_append (typed : Option (List Bytes)) (lines later : List Bytes) :
    items typed (lines ++ later) = items typed lines ++ items (openBlock typed lines) later := by
  induction lines generalizing typed with
  | nil => rfl
  | cons line lines ih =>
    rw [List.cons_append, items, items, ih, List.append_assoc]
    rfl

theorem items_concat (typed : Option (List Bytes)) (lines : List Bytes) (line : Bytes) :
    items typed (lines ++ [line]) = items typed lines ++ (advance (openBlock typed lines) line).2 := by
  rw [items_append, items, items, List.append_nil]

theorem openBlock_concat (typed : Option (List Bytes)) (lines : List Bytes) (line : Bytes) :
    openBlock typed (lines ++ [line]) = (advance (openBlock typed lines) line).1 := by
  rw [openBlock, List.foldl_concat]
  rfl

theorem items_free (hlines : ∀ line ∈ lines, 10 ∉ line) (htyped : ∀ block ∈ typed, ∀ line ∈ block, 10 ∉ line) :
    ∀ i ∈ items typed lines, ∀ line ∈ i.lines, 10 ∉ line := by
  induction lines generalizing typed with
  | nil => simp [items]
  | cons line lines ih =>
    have hline : 10 ∉ line := hlines line (by simp)
    have ih := fun typed => @ih typed fun l hl => hlines l (by simp [hl])
    intro i hi
    rw [items, List.mem_append] at hi
    cases typed with
    | none =>
      by_cases hb : line = text "/begin"
      · simp only [advance, hb, if_true, List.not_mem_nil, false_or] at hi
        exact ih _ (by simp) i hi
      · simp only [advance, hb, if_false, List.mem_singleton] at hi
        rcases hi with rfl | hi
        · simpa [Item.lines] using hline
        · exact ih _ (by simp) i hi
    | some block =>
      have hblock : ∀ l ∈ block, 10 ∉ l := htyped block rfl
      by_cases he : line = text "/end"
      · simp only [advance, he, if_true, List.mem_singleton] at hi
        rcases hi with rfl | hi
        · exact hblock
        · exact ih _ (by simp) i hi
      · simp only [advance, he, if_false, List.not_mem_nil, false_or] at hi
        refine ih _ ?_ i hi
        rintro _ ⟨⟩ l hl
        rcases List.mem_append.1 hl with hl | hl
        · exact hblock l hl
        · rw [List.mem_singleton.1 hl]
          exact hline

/-- The text of a single line. No block is sent as one. -/
def Plain (action : Bytes) : Prop := action ≠ [] ∧ 10 ∉ action

instance (action : Bytes) : Decidable (Plain action) := inferInstanceAs (Decidable (action ≠ [] ∧ 10 ∉ action))

theorem not_plain_ended (lines : List Bytes) : ¬ Plain (ended 10 lines) := by
  cases lines with
  | nil => exact fun h => h.1 rfl
  | cons line lines => exact fun h => h.2 (by simp)

/-- The manual asks for an action for each line, and for more plain ones where the text of a
block is plain. -/
theorem Documented.count (h : Documented is sent) (hfree : ∀ i ∈ is, ∀ line ∈ i.lines, 10 ∉ line) :
    (is.flatMap Item.sent).countP Plain ≤ sent.countP Plain ∧
      ∀ lines, .block lines ∈ is → (∀ line ∈ lines, ¬ Slashed line) → Plain ([10].intercalate lines) →
        (is.flatMap Item.sent).countP Plain < sent.countP Plain := by
  induction h with
  | nil => simp
  | @skip line is sent hskip _ ih =>
    obtain ⟨hle, hlt⟩ := ih fun i hi => hfree i (by simp [hi])
    rw [List.flatMap_cons, Item.sent, kept_skip hskip, List.nil_append]
    exact ⟨hle, fun lines hmem => hlt lines (by simpa using hmem)⟩
  | @line line is sent hline _ ih =>
    obtain ⟨hle, hlt⟩ := ih fun i hi => hfree i (by simp [hi])
    have hplain : Plain line := ⟨fun h => hline (.inl h), hfree _ List.mem_cons_self line List.mem_cons_self⟩
    rw [List.flatMap_cons, Item.sent, kept_line hline, List.singleton_append, List.countP_cons_of_pos (by simpa using hplain),
      List.countP_cons_of_pos (by simpa using hplain)]
    refine ⟨Nat.succ_le_succ hle, fun lines hmem hs hp => Nat.succ_lt_succ (hlt lines (by simpa using hmem) hs hp)⟩
  | @block block is sent hclean _ ih =>
    obtain ⟨hle, hlt⟩ := ih fun i hi => hfree i (by simp [hi])
    rw [List.flatMap_cons, Item.sent, List.singleton_append, List.countP_cons_of_neg (by simpa using not_plain_ended _),
      List.countP_cons]
    refine ⟨by omega, fun lines hmem hs hp => ?_⟩
    rcases List.mem_cons.1 hmem with heq | hmem
    · cases heq
      simp only [hp, decide_true, if_true]
      omega
    · have := hlt lines hmem hs hp
      omega
  | @undefined block is sent hslash actions _ ih =>
    obtain ⟨hle, hlt⟩ := ih fun i hi => hfree i (by simp [hi])
    rw [List.flatMap_cons, Item.sent, List.singleton_append, List.countP_cons_of_neg (by simpa using not_plain_ended _),
      List.countP_append]
    refine ⟨by omega, fun lines hmem hs hp => ?_⟩
    rcases List.mem_cons.1 hmem with heq | hmem
    · cases heq
      obtain ⟨line, hl, hsl⟩ := hslash
      exact absurd hsl (hs line hl)
    · have := hlt lines hmem hs hp
      omega

theorem Documented.mem (h : Documented is sent) {lines : List Bytes} (hmem : .block lines ∈ is)
    (hs : ∀ line ∈ lines, ¬ Slashed line) : [10].intercalate lines ∈ sent := by
  induction h with
  | nil => cases hmem
  | skip _ _ ih => exact ih (by simpa using hmem)
  | line _ _ ih => exact List.mem_cons_of_mem _ (ih (by simpa using hmem))
  | block _ _ ih =>
    rcases List.mem_cons.1 hmem with heq | hmem
    · cases heq
      exact List.mem_cons_self
    · exact List.mem_cons_of_mem _ (ih hmem)
  | undefined hslash actions _ ih =>
    rcases List.mem_cons.1 hmem with heq | hmem
    · cases heq
      obtain ⟨line, hl, hsl⟩ := hslash
      exact absurd hsl (hs line hl)
    · exact List.mem_append_right _ (ih hmem)

theorem Tidy.ended_eq (h : Tidy lines) (hs : ∀ line ∈ lines, ¬ Slashed line) :
    ended 10 (kept lines) = [10].intercalate lines := by
  rcases h with rfl | ⟨init, rfl, hinit⟩
  · rfl
  · have hkept : kept init = init := by
      apply List.filter_eq_self.2
      intro line hl
      have hne : line ≠ [] := fun he => hinit (he ▸ hl)
      simpa using ⟨hne, hs line (by simp [hl])⟩
    rw [kept_append, hkept, kept_skip (.inl rfl), List.append_nil]
    exact ended_eq_intercalate 10 init

/-- What is sent is what the manual says exactly if every block without slashed lines is tidy. -/
theorem documented_iff (hfree : ∀ i ∈ is, ∀ line ∈ i.lines, 10 ∉ line) :
    Documented is (is.flatMap Item.sent) ↔
      ∀ lines, .block lines ∈ is → (∀ line ∈ lines, ¬ Slashed line) → Tidy lines := by
  constructor
  · intro h lines hmem hs
    obtain ⟨i, hi, haction⟩ := List.mem_flatMap.1 (h.mem hmem hs)
    cases i with
    | line l =>
      -- The texts of the lines are used up by the lines.
      obtain ⟨hl, hne, -⟩ := mem_kept.1 haction
      have hplain : Plain ([10].intercalate lines) := ⟨hne, by
        rw [List.mem_singleton.1 hl]
        exact hfree _ hi l List.mem_cons_self⟩
      exact absurd ((h.count hfree).2 lines hmem hs hplain) (Nat.lt_irrefl _)
    | block ks =>
      have he : [10].intercalate lines = ended 10 (kept ks) := List.mem_singleton.1 haction
      by_cases hne : lines = []
      · exact .inl hne
      · have hks : ∀ l ∈ kept ks, 10 ∉ l := fun l hl => hfree _ hi l (mem_kept.1 hl).1
        have hlines := (ended_eq_join_iff (hfree _ hmem) hks hne).1 he.symm
        exact .inr ⟨kept ks, hlines, fun hnil => (mem_kept.1 hnil).2.1 rfl⟩
  · intro h
    induction is with
    | nil => exact .nil
    | cons i is ih =>
      have ih := ih (fun i hi => hfree i (by simp [hi])) fun lines hmem => h lines (by simp [hmem])
      cases i with
      | line l =>
        by_cases hk : l = [] ∨ Slashed l
        · rw [List.flatMap_cons, Item.sent, kept_skip hk]
          exact .skip hk ih
        · rw [List.flatMap_cons, Item.sent, kept_line hk]
          exact .line hk ih
      | block ls =>
        by_cases hs : ∀ line ∈ ls, ¬ Slashed line
        · rw [List.flatMap_cons, Item.sent, (h ls (by simp) hs).ended_eq hs]
          exact .block hs ih
        · exact .undefined (by simpa using hs) _ ih

/-- Without slashed lines in a block the manual says for how many actions it asks. -/
theorem Documented.length (h : Documented is sent)
    (hclean : ∀ lines, .block lines ∈ is → ∀ line ∈ lines, ¬ Slashed line) :
    sent.length = (is.flatMap Item.sent).length := by
  induction h with
  | nil => rfl
  | skip hskip _ ih =>
    rw [ih fun lines hmem => hclean lines (List.mem_cons_of_mem _ hmem), List.flatMap_cons, Item.sent, kept_skip hskip,
      List.nil_append]
  | line hline _ ih =>
    rw [List.length_cons, ih fun lines hmem => hclean lines (List.mem_cons_of_mem _ hmem), List.flatMap_cons, Item.sent,
      kept_line hline, List.singleton_append, List.length_cons]
  | block _ _ ih =>
    rw [List.length_cons, ih fun lines hmem => hclean lines (List.mem_cons_of_mem _ hmem), List.flatMap_cons, Item.sent,
      List.singleton_append, List.length_cons]
  | undefined hslash =>
    obtain ⟨line, hl, hs⟩ := hslash
    exact absurd hs (hclean _ List.mem_cons_self line hl)

theorem documented_append {js : List Item} (h : Documented (is ++ js) sent) :
    ∃ front back, sent = front ++ back ∧ Documented is front ∧ Documented js back := by
  induction is generalizing sent with
  | nil => exact ⟨[], sent, rfl, .nil, h⟩
  | cons i is ih =>
    rw [List.cons_append] at h
    cases h with
    | skip hskip h =>
      obtain ⟨front, back, rfl, hfront, hback⟩ := ih h
      exact ⟨front, back, rfl, .skip hskip hfront, hback⟩
    | line hline h =>
      obtain ⟨front, back, rfl, hfront, hback⟩ := ih h
      exact ⟨_ :: front, back, rfl, .line hline hfront, hback⟩
    | block hclean h =>
      obtain ⟨front, back, rfl, hfront, hback⟩ := ih h
      exact ⟨_ :: front, back, rfl, .block hclean hfront, hback⟩
    | undefined hslash actions h =>
      obtain ⟨front, back, rfl, hfront, hback⟩ := ih h
      exact ⟨actions ++ front, back, (List.append_assoc _ _ _).symm, .undefined hslash actions hfront, hback⟩

theorem Documented.append {js : List Item} {later : List Bytes} (h : Documented is sent) (h' : Documented js later) :
    Documented (is ++ js) (sent ++ later) := by
  induction h with
  | nil => exact h'
  | skip hskip _ ih => exact .skip hskip ih
  | line hline _ ih => exact .line hline ih
  | block hclean _ ih => exact .block hclean ih
  | undefined hslash actions _ ih =>
    rw [List.append_assoc]
    exact .undefined hslash actions ih

/-- Nothing has to be sent for silent items. -/
theorem documented_nil : Documented is [] ↔ ∀ i ∈ is, i.Silent := by
  constructor
  · intro h
    generalize hs : [] = sent at h
    induction h with
    | nil => exact List.forall_mem_nil _
    | skip hskip _ ih => exact List.forall_mem_cons.2 ⟨hskip, ih hs⟩
    | line | block => cases hs
    | undefined hslash actions _ ih => exact List.forall_mem_cons.2 ⟨hslash, ih (List.nil_eq_append_iff.1 hs).2.symm⟩
  · intro h
    induction is with
    | nil => exact .nil
    | cons i is ih =>
      obtain ⟨hi, his⟩ := List.forall_mem_cons.1 h
      cases i with
      | line l => exact .skip hi (ih his)
      | block lines => exact .undefined hi [] (ih his)

/-- Where nothing more is sent, no more must be asked for. -/
theorem documented_append_iff {js : List Item} (hfree : ∀ i ∈ is, ∀ line ∈ i.lines, 10 ∉ line)
    (hclean : ∀ lines, .block lines ∈ is → ∀ line ∈ lines, ¬ Slashed line) :
    Documented (is ++ js) (is.flatMap Item.sent) ↔ (∀ lines, .block lines ∈ is → Tidy lines) ∧ ∀ j ∈ js, j.Silent := by
  have htidy : Documented is (is.flatMap Item.sent) ↔ ∀ lines, .block lines ∈ is → Tidy lines := by
    rw [documented_iff hfree]
    exact forall₂_congr fun lines hmem => ⟨fun h => h (hclean lines hmem), fun h _ => h⟩
  rw [← htidy, ← documented_nil]
  constructor
  · intro h
    obtain ⟨front, back, he, hfront, hback⟩ := documented_append h
    have hlen := congrArg List.length he
    rw [List.length_append, hfront.length hclean] at hlen
    obtain rfl : back = [] := List.length_eq_zero_iff.1 (by omega)
    rw [List.append_nil] at he
    exact ⟨he ▸ hfront, hback⟩
  · rintro ⟨hfront, hback⟩
    have h := hfront.append hback
    rwa [List.append_nil] at h

/-- No line that is sent is slashed. -/
theorem sent_not_slashed (hfree : ∀ i ∈ is, ∀ line ∈ i.lines, 10 ∉ line) :
    ∀ action ∈ is.flatMap Item.sent, ∀ line ∈ action.splitOn 10, ¬ Slashed line := by
  intro action ha line hline
  obtain ⟨i, hi, ha⟩ := List.mem_flatMap.1 ha
  cases i with
  | line l =>
    obtain ⟨hl, -, hs⟩ := mem_kept.1 ha
    obtain rfl := List.mem_singleton.1 hl
    rw [List.splitOn_eq_singleton (hfree _ hi action List.mem_cons_self)] at hline
    rw [List.mem_singleton.1 hline]
    exact hs
  | block ls =>
    obtain rfl := List.mem_singleton.1 ha
    have hks : ∀ l ∈ kept ls, 10 ∉ l := fun l hl => hfree _ hi l (mem_kept.1 hl).1
    rw [splitOn_ended hks] at hline
    rcases List.mem_append.1 hline with hl | hl
    · exact (mem_kept.1 hl).2.2
    · rw [List.mem_singleton.1 hl]
      decide

end

end Zar
