import Cadence.Options
import Cadence.Proofs.Numerals

/-!
The grammar of the command line.

The arguments are a row of items: the flag that stands alone, and flags with a value.  Reading them is
reading item by item (`read?_items`), and what is read is what the last item of each kind says
(`read?_iff`).
-/

namespace Cadence

theorem Mode.exists_ofText?_iff {text : String} : (∃ m, ofText? text = some m) ↔
    text ∈ ["rca", "RCA", "dual", "DUAL", "telemetry", "TELEMETRY"] := by
  constructor
  · rintro ⟨m, read⟩
    apply Decidable.byContradiction
    intro unlisted
    simp only [List.mem_cons, List.not_mem_nil, or_false, not_or] at unlisted
    simp [ofText?, unlisted] at read
  · simp only [List.mem_cons, List.not_mem_nil, or_false]
    rintro (rfl | rfl | rfl | rfl | rfl | rfl) <;> exact ⟨_, rfl⟩

theorem Level.exists_ofText?_iff {text : String} : (∃ l, ofText? text = some l) ↔
    text ∈ ["trace", "debug", "info", "warn", "warning", "err", "error", "critical", "off"] := by
  constructor
  · rintro ⟨l, read⟩
    apply Decidable.byContradiction
    intro unlisted
    simp only [List.mem_cons, List.not_mem_nil, or_false, not_or] at unlisted
    simp [ofText?, unlisted] at read
  · simp only [List.mem_cons, List.not_mem_nil, or_false]
    rintro (rfl | rfl | rfl | rfl | rfl | rfl | rfl | rfl | rfl) <;> exact ⟨_, rfl⟩

namespace Options

/-- A part of the command line. -/
inductive Item
  | overload
  | setting (flag : Flag) (value : String)
  deriving DecidableEq, Repr

namespace Item

/-- How an item is written. -/
def words : Item → List String
  | overload => [overloadWord]
  | setting flag value => [flag.word, value]

/-- The flag of an item, unless it is the one that stands alone. -/
def flag? : Item → Option Flag
  | overload => none
  | setting flag _ => some flag

/-- Whether the value of an item is one that its flag takes. -/
def Acceptable : Item → Prop
  | overload => True
  | setting .mode value => value ∈ ["rca", "RCA", "dual", "DUAL", "telemetry", "TELEMETRY"]
  | setting .workers value => ∃ n, Numeral.read? value = some n ∧ n ≠ 0
  | setting .seconds value => ∃ n, Numeral.read? value = some n
  | setting .logLevel value => value ∈ ["trace", "debug", "info", "warn", "warning", "err", "error",
      "critical", "off"]

/-- The mode that an item sets. -/
def mode? : Item → Option Mode
  | setting .mode value => Mode.ofText? value
  | _ => none

/-- The number of workers that an item sets. -/
def workers? : Item → Option Nat
  | setting .workers value => Numeral.read? value
  | _ => none

/-- The number of seconds that an item sets. -/
def seconds? : Item → Option Nat
  | setting .seconds value => Numeral.read? value
  | _ => none

/-- The level that an item sets. -/
def logLevel? : Item → Option Level
  | setting .logLevel value => Level.ofText? value
  | _ => none

end Item

/-- The options with what the last item of each kind says. -/
def updated (o : Options) (items : List Item) : Options where
  mode := (items.filterMap Item.mode?).getLast?.getD o.mode
  workers := (items.filterMap Item.workers?).getLast?.getD o.workers
  seconds := (items.filterMap Item.seconds?).getLast?.getD o.seconds
  overload := o.overload || items.any (· = .overload)
  logLevel := (items.filterMap Item.logLevel?).getLast?.getD o.logLevel

/-- The options with one item read in. -/
def take? (o : Options) : Item → Option Options
  | .overload => some { o with overload := true }
  | .setting flag value => o.set? flag value

/-! ## Reading item by item -/

variable {o o' : Options} {i j : Item} {items : List Item} {rest xs ys : List String}

theorem Flag.word_ne_overloadWord (flag : Flag) : flag.word ≠ overloadWord := by
  cases flag <;> decide

theorem Flag.ofWord?_word (flag : Flag) : Flag.ofWord? flag.word = some flag := by
  cases flag <;> rfl

theorem Flag.word_of_ofWord? {flag : Flag} {word : String} (found : Flag.ofWord? word = some flag) :
    flag.word = word := by
  simpa using List.find?_some found

theorem read?_overload (o : Options) (rest : List String) :
    read? o (overloadWord :: rest) = read? { o with overload := true } rest := by
  rw [read?.eq_def o]
  exact if_pos rfl

theorem read?_setting (o : Options) {word : String} (value : String) (rest : List String)
    (other : word ≠ overloadWord) : read? o (word :: value :: rest) =
      ((Flag.ofWord? word).bind (o.set? · value)).bind (read? · rest) := by
  rw [read?, if_neg other]
  cases (Flag.ofWord? word).bind (o.set? · value) <;> rfl

/-- Reading starts with one item. -/
theorem read?_item (o : Options) (i : Item) (rest : List String) :
    read? o (i.words ++ rest) = (o.take? i).bind (read? · rest) := by
  cases i with
  | overload => exact read?_overload o rest
  | setting flag value =>
    have read := read?_setting o value rest flag.word_ne_overloadWord
    rwa [Flag.ofWord?_word] at read

/-- Reading a row of items is reading them one by one. -/
theorem read?_items (o : Options) (items : List Item) (rest : List String) :
    read? o (items.flatMap Item.words ++ rest) = (items.foldlM take? o).bind (read? · rest) := by
  induction items generalizing o with
  | nil => rfl
  | cons i items ih =>
    rw [List.flatMap_cons, List.append_assoc, read?_item, List.foldlM_cons]
    cases o.take? i with
    | none => rfl
    | some o' => exact ih o'

/-- What is read is a row of items. -/
theorem items_of_read? (read : read? o xs = some o') :
    ∃ items : List Item, xs = items.flatMap Item.words ∧ items.foldlM take? o = some o' := by
  fun_induction read? o xs with
  | case1 o => exact ⟨[], rfl, read⟩
  | case2 o rest ih =>
    obtain ⟨items, rfl, taken⟩ := ih read
    exact ⟨.overload :: items, rfl, taken⟩
  | case3 => cases read
  | case4 o word other value rest o₁ set ih =>
    obtain ⟨items, rfl, taken⟩ := ih read
    obtain ⟨flag, found, set⟩ := Option.bind_eq_some_iff.mp set
    refine ⟨.setting flag value :: items, ?_, ?_⟩
    · rw [List.flatMap_cons, ← Flag.word_of_ofWord? found]
      rfl
    · rw [List.foldlM_cons, take?, set]
      exact taken
  | case5 => cases read

/-! ## What the items say -/

theorem updated_nil (o : Options) : o.updated [] = o := by
  simp [updated]

/-- The last of some items is the last of the later ones, if there is one. -/
theorem getD_getLast?_cons {α : Type} (f : Item → Option α) (i : Item) (items : List Item) (a : α) :
    ((i :: items).filterMap f).getLast?.getD a =
      (items.filterMap f).getLast?.getD ((f i).getD a) := by
  cases told : f i with
  | none => rw [List.filterMap_cons_none told]; rfl
  | some b =>
    rw [List.filterMap_cons_some told, List.getLast?_cons]
    rfl

theorem updated_single (o : Options) (i : Item) : o.updated [i] =
    { mode := i.mode?.getD o.mode
      workers := i.workers?.getD o.workers
      seconds := i.seconds?.getD o.seconds
      overload := o.overload || i = .overload
      logLevel := i.logLevel?.getD o.logLevel } := by
  simp only [updated, getD_getLast?_cons, List.filterMap_nil, List.getLast?_nil, Option.getD_none,
    List.any_cons, List.any_nil, Bool.or_false]

/-- An item is read if its value is acceptable, and then the options say what it says. -/
theorem take?_eq_some_iff : o.take? i = some o' ↔ i.Acceptable ∧ o' = o.updated [i] := by
  rw [updated_single]
  cases i with
  | overload =>
    simp [take?, Item.Acceptable, Item.mode?, Item.workers?, Item.seconds?, Item.logLevel?, eq_comm]
  | setting flag value =>
    cases flag with
    | mode =>
      simp only [take?, set?, Item.Acceptable, Item.mode?, Item.workers?, Item.seconds?, Item.logLevel?]
      rw [← Mode.exists_ofText?_iff]
      cases Mode.ofText? value <;> simp [eq_comm]
    | workers =>
      simp only [take?, set?, Item.Acceptable, Item.mode?, Item.workers?, Item.seconds?, Item.logLevel?]
      cases Numeral.read? value <;> simp [eq_comm]
    | seconds =>
      simp only [take?, set?, Item.Acceptable, Item.mode?, Item.workers?, Item.seconds?, Item.logLevel?]
      cases Numeral.read? value <;> simp [eq_comm]
    | logLevel =>
      simp only [take?, set?, Item.Acceptable, Item.mode?, Item.workers?, Item.seconds?, Item.logLevel?]
      rw [← Level.exists_ofText?_iff]
      cases Level.ofText? value <;> simp [eq_comm]

theorem updated_cons (o : Options) (i : Item) (items : List Item) :
    o.updated (i :: items) = (o.updated [i]).updated items := by
  simp only [updated, getD_getLast?_cons, List.filterMap_nil, List.getLast?_nil, Option.getD_none,
    List.any_cons, List.any_nil, Bool.or_false, Bool.or_assoc]

/-- Items are read if all their values are acceptable, and then the options say what the last of each kind
says. -/
theorem takes_eq_some_iff : items.foldlM take? o = some o' ↔
    (∀ i ∈ items, i.Acceptable) ∧ o' = o.updated items := by
  induction items generalizing o with
  | nil => simp [updated_nil, eq_comm]
  | cons i items ih =>
    rw [List.foldlM_cons, updated_cons]
    cases taken : o.take? i with
    | none =>
      constructor
      · rintro ⟨⟩
      · rintro ⟨all, _⟩
        have read : o.take? i = some (o.updated [i]) :=
          take?_eq_some_iff.mpr ⟨all i List.mem_cons_self, rfl⟩
        rw [taken] at read
        cases read
    | some o₁ =>
      obtain ⟨acceptable, rfl⟩ := take?_eq_some_iff.mp taken
      rw [List.forall_mem_cons]
      simp only [acceptable, true_and]
      exact ih

/-- Arguments are read if they are acceptable items. -/
theorem read?_iff : read? o xs = some o' ↔ ∃ items : List Item, xs = items.flatMap Item.words ∧
    (∀ i ∈ items, i.Acceptable) ∧ o' = o.updated items := by
  constructor
  · intro read
    obtain ⟨items, written, taken⟩ := items_of_read? read
    exact ⟨items, written, takes_eq_some_iff.mp taken⟩
  · rintro ⟨items, rfl, decided⟩
    have read := read?_items o items []
    rw [List.append_nil, takes_eq_some_iff.mpr decided] at read
    exact read

/-- What follows is read into the options so far. -/
theorem read?_append (read : read? o xs = some o') : read? o (xs ++ ys) = read? o' ys := by
  obtain ⟨items, rfl, taken⟩ := items_of_read? read
  rw [read?_items, taken]
  rfl

/-- What every flag keeps is kept by a command line that is read. -/
theorem read?_keeps {P : Options → Prop} (lone : ∀ o, P o → P { o with overload := true })
    (set : ∀ o flag value o', set? o flag value = some o' → P o → P o') {o o' : Options}
    {arguments : List String} (read : o.read? arguments = some o') (first : P o) : P o' := by
  fun_induction Options.read? o arguments with
  | case1 o =>
    cases read
    exact first
  | case2 o rest ih => exact ih read (lone o first)
  | case3 => cases read
  | case4 o word other value rest o₁ taken ih =>
    obtain ⟨flag, _, taken⟩ := Option.bind_eq_some_iff.mp taken
    exact ih read (set o flag value o₁ taken first)
  | case5 => cases read

/-- A command line that is read asks for a worker. -/
theorem workers_pos {o o' : Options} {arguments : List String}
    (read : o.read? arguments = some o') (positive : 0 < o.workers) : 0 < o'.workers := by
  refine read?_keeps (P := fun o => 0 < o.workers) (fun _ positive => positive) ?_ read positive
  intro o flag value o' read positive
  cases flag with
  | workers =>
    obtain ⟨n, _, taken⟩ := Option.bind_eq_some_iff.mp read
    split at taken
    · cases taken
    · cases taken
      exact Nat.pos_of_ne_zero ‹_›
  | _ =>
    obtain ⟨_, _, rfl⟩ := Option.map_eq_some_iff.mp read
    exact positive

/-- A command line that is read asks for as many seconds as a word holds. -/
theorem seconds_lt {o o' : Options} {arguments : List String}
    (read : o.read? arguments = some o') (small : o.seconds < Nat.pow 2 63) :
    o'.seconds < Nat.pow 2 63 := by
  refine read?_keeps (P := fun o => o.seconds < Nat.pow 2 63) (fun _ small => small) ?_ read small
  intro o flag value o' read small
  cases flag with
  | seconds =>
    obtain ⟨n, number, rfl⟩ := Option.map_eq_some_iff.mp read
    exact Numeral.lt_of_read? number
  | workers =>
    obtain ⟨n, _, taken⟩ := Option.bind_eq_some_iff.mp read
    split at taken <;> cases taken
    exact small
  | mode | logLevel =>
    obtain ⟨_, _, rfl⟩ := Option.map_eq_some_iff.mp read
    exact small

/-- The words tell the first item. -/
theorem words_append_inj (same : i.words ++ xs = j.words ++ ys) : i = j ∧ xs = ys := by
  cases i with
  | overload =>
    cases j with
    | overload => exact ⟨rfl, List.append_cancel_left same⟩
    | setting flag value =>
      simp only [Item.words, List.cons_append, List.nil_append, List.cons.injEq] at same
      exact absurd same.1.symm flag.word_ne_overloadWord
  | setting flag value =>
    cases j with
    | overload =>
      simp only [Item.words, List.cons_append, List.nil_append, List.cons.injEq] at same
      exact absurd same.1 flag.word_ne_overloadWord
    | setting flag' value' =>
      simp only [Item.words, List.cons_append, List.nil_append, List.cons.injEq] at same
      obtain ⟨word, rfl, rest⟩ := same
      have flags : some flag = some flag' := by
        rw [← flag.ofWord?_word, word, flag'.ofWord?_word]
      rw [Option.some.inj flags]
      exact ⟨rfl, rest⟩

/-- No other items are written with the same words. -/
theorem words_inj {items' : List Item} (same : items.flatMap Item.words = items'.flatMap Item.words) :
    items = items' := by
  induction items generalizing items' with
  | nil =>
    cases items' with
    | nil => rfl
    | cons j items' => cases j <;> cases same
  | cons i items ih =>
    cases items' with
    | nil => cases i <;> cases same
    | cons j items' =>
      obtain ⟨rfl, rest⟩ := words_append_inj same
      rw [ih rest]

/-! ## Items in another order -/

/-- Items for different flags say different things. -/
theorem updated_comm (different : i.flag? ≠ j.flag?) :
    (o.updated [i]).updated [j] = (o.updated [j]).updated [i] := by
  simp only [updated_single]
  cases i with
  | overload =>
    cases j with
    | overload => exact absurd rfl different
    | setting flag value => cases flag <;> simp [Item.mode?, Item.workers?, Item.seconds?, Item.logLevel?]
  | setting flag value =>
    cases j with
    | overload => cases flag <;> simp [Item.mode?, Item.workers?, Item.seconds?, Item.logLevel?]
    | setting flag' value' =>
      cases flag <;> cases flag' <;> first | exact absurd rfl different | rfl

theorem takes_pair_iff : (o.take? i).bind (take? · j) = some o' ↔
    i.Acceptable ∧ j.Acceptable ∧ o' = (o.updated [i]).updated [j] := by
  rw [Option.bind_eq_some_iff]
  simp only [take?_eq_some_iff]
  constructor
  · rintro ⟨_, ⟨first, rfl⟩, second⟩
    exact ⟨first, second⟩
  · rintro ⟨first, second⟩
    exact ⟨_, ⟨first, rfl⟩, second⟩

theorem takes_comm (different : i.flag? ≠ j.flag?) :
    (o.take? i).bind (take? · j) = (o.take? j).bind (take? · i) := by
  apply Option.ext
  intro o'
  rw [takes_pair_iff, takes_pair_iff, updated_comm different, and_left_comm]

/-- Two items for different flags may change places. -/
theorem read?_comm (before : List Item) (different : i.flag? ≠ j.flag?) :
    read? o (before.flatMap Item.words ++ (i.words ++ (j.words ++ ys))) =
      read? o (before.flatMap Item.words ++ (j.words ++ (i.words ++ ys))) := by
  have pair : ∀ o, read? o (i.words ++ (j.words ++ ys)) = read? o (j.words ++ (i.words ++ ys)) := by
    intro o
    simp only [read?_item, ← Option.bind_assoc]
    rw [takes_comm different]
  rw [read?_items, read?_items]
  exact congrArg _ (funext pair)

/-! ## Options written out -/

/-- The options that can be written on a command line. -/
structure Writable (o : Options) : Prop where
  mode : o.mode ∈ [Mode.rca, .dual, .telemetry]
  workers : 0 < o.workers ∧ o.workers < Nat.pow 2 63
  seconds : o.seconds < Nat.pow 2 63

/-- The settings of some options. -/
def settings (o : Options) : List Item :=
  [.setting .mode o.mode.name, .setting .workers (toString o.workers),
    .setting .seconds (toString o.seconds), .setting .logLevel o.logLevel.name]

/-- How options are written. -/
def written (o : Options) : List Item := o.settings ++ if o.overload then [.overload] else []

theorem mem_written : i ∈ o.written ↔ i ∈ o.settings ∨ i = .overload ∧ o.overload = true := by
  unfold written
  cases o.overload <;> simp

theorem Writable.ofText?_name (writable : o.Writable) : Mode.ofText? o.mode.name = some o.mode := by
  have listed := writable.mode
  simp only [List.mem_cons, List.not_mem_nil, or_false] at listed
  rcases listed with same | same | same <;> rw [same] <;> rfl

theorem Writable.acceptable (writable : o.Writable) : ∀ i ∈ o.written, i.Acceptable := by
  intro i among
  rcases mem_written.mp among with setting | ⟨rfl, _⟩
  · simp only [settings, List.mem_cons, List.not_mem_nil, or_false] at setting
    rcases setting with rfl | rfl | rfl | rfl
    · exact Mode.exists_ofText?_iff.mp ⟨o.mode, writable.ofText?_name⟩
    · exact ⟨o.workers, Numeral.read?_toString writable.workers.2, Nat.ne_of_gt writable.workers.1⟩
    · exact ⟨o.seconds, Numeral.read?_toString writable.seconds⟩
    · exact Level.exists_ofText?_iff.mp ⟨o.logLevel, o.logLevel.ofText?_name⟩
  · trivial

/-- If one setting alone says something of a kind, its place among the items does not matter. -/
theorem getLast?_of_perm {α : Type} {f : Item → Option α} {a : α} (perm : items.Perm o.written)
    (alone : f .overload = none) (told : o.settings.filterMap f = [a]) :
    (items.filterMap f).getLast? = some a := by
  have silent : (if o.overload then [Item.overload] else []).filterMap f = [] := by
    cases o.overload
    · rfl
    · exact List.filterMap_cons_none alone
  have only := perm.filterMap f
  rw [written, List.filterMap_append, told, silent, List.append_nil] at only
  rw [List.perm_singleton.mp only]
  rfl

theorem Writable.updated_eq (writable : o.Writable) (perm : items.Perm o.written) :
    updated {} items = o := by
  have mode : o.settings.filterMap Item.mode? = [o.mode] := by
    simp only [settings, List.filterMap_cons, List.filterMap_nil, Item.mode?, writable.ofText?_name]
  have workers : o.settings.filterMap Item.workers? = [o.workers] := by
    simp only [settings, List.filterMap_cons, List.filterMap_nil, Item.workers?,
      Numeral.read?_toString writable.workers.2]
  have seconds : o.settings.filterMap Item.seconds? = [o.seconds] := by
    simp only [settings, List.filterMap_cons, List.filterMap_nil, Item.seconds?,
      Numeral.read?_toString writable.seconds]
  have logLevel : o.settings.filterMap Item.logLevel? = [o.logLevel] := by
    simp only [settings, List.filterMap_cons, List.filterMap_nil, Item.logLevel?,
      o.logLevel.ofText?_name]
  have overload : items.any (· = .overload) = o.overload := by
    rw [perm.any_eq]
    unfold written settings
    cases o.overload <;> rfl
  rw [updated, getLast?_of_perm perm rfl mode, getLast?_of_perm perm rfl workers,
    getLast?_of_perm perm rfl seconds, getLast?_of_perm perm rfl logLevel, overload]
  rfl

/-- A text without a NUL is not cut short. -/
theorem untilNul_of_ne {text : String} (whole : ∀ c ∈ text.toList, c ≠ '\x00') :
    Text.untilNul text = text := by
  have all : ∀ c ∈ text.toList, decide (c ≠ '\x00') = true := fun c part => decide_eq_true (whole c part)
  have same : (text.toList ++ []).takeWhile (· ≠ '\x00') = text.toList ++ [] :=
    List.takeWhile_append_of_pos all
  rw [List.append_nil] at same
  rw [Text.untilNul, same, String.ofList_toList]

theorem untilNul_toString (n : Nat) : Text.untilNul (toString n) = toString n := by
  apply untilNul_of_ne
  rintro c part rfl
  exact absurd (Numeral.isDigit_of_mem_toString part) (by decide)

theorem untilNul_name (m : Mode) : Text.untilNul m.name = m.name := by
  cases m with
  | unlisted code unnamed =>
    simp only [Mode.name]
    rfl
  | _ => rfl

theorem untilNul_written : ∀ i ∈ o.written, ∀ word ∈ i.words, Text.untilNul word = word := by
  have flagged : ∀ {flag : Flag} {value : String}, Text.untilNul value = value →
      ∀ word ∈ (Item.setting flag value).words, Text.untilNul word = word := by
    rintro flag value whole word (_ | ⟨_, _ | ⟨_, ⟨⟩⟩⟩)
    · cases flag <;> rfl
    · exact whole
  intro i among
  rcases mem_written.mp among with setting | ⟨rfl, _⟩
  · simp only [settings, List.mem_cons, List.not_mem_nil, or_false] at setting
    rcases setting with rfl | rfl | rfl | rfl
    · exact flagged (untilNul_name o.mode)
    · exact flagged (untilNul_toString o.workers)
    · exact flagged (untilNul_toString o.seconds)
    · apply flagged
      cases o.logLevel <;> rfl
  · rintro word (_ | ⟨_, ⟨⟩⟩)
    rfl

/-- The options are read back from all ways to write them. -/
theorem ofArguments?_written (writable : o.Writable) (perm : items.Perm o.written) (program : String) :
    ofArguments? (program :: items.flatMap Item.words) = some o := by
  have uncut : (items.flatMap Item.words).map Text.untilNul = items.flatMap Item.words := by
    refine (List.map_congr_left ?_).trans (List.map_id _)
    intro word listed
    obtain ⟨i, among, part⟩ := List.mem_flatMap.mp listed
    exact untilNul_written i (perm.mem_iff.mp among) word part
  unfold ofArguments?
  rw [List.tail_cons, uncut, read?_iff]
  refine ⟨items, rfl, fun i among => writable.acceptable i (perm.mem_iff.mp among), ?_⟩
  exact (writable.updated_eq perm).symm

/-! ## The grammar -/

/-- The arguments that are read are rows of acceptable items, each flag with its value, and the last item of
each kind decides; the words tell the items.  So a row of arguments is read on from the options that were
read before, items for different flags may change places, and options are read back in whatever order they
are written. -/
theorem reads_items :
    (∀ arguments o, ofArguments? arguments = some o ↔ ∃ items : List Item,
      arguments.tail.map Text.untilNul = items.flatMap Item.words ∧ (∀ i ∈ items, i.Acceptable) ∧
        o = updated {} items) ∧
    (∀ items items' : List Item, items.flatMap Item.words = items'.flatMap Item.words → items = items') ∧
    (∀ o o' xs ys, read? o xs = some o' → read? o (xs ++ ys) = read? o' ys) ∧
    (∀ o (before : List Item) (i j : Item) ys, i.flag? ≠ j.flag? →
      read? o (before.flatMap Item.words ++ (i.words ++ (j.words ++ ys))) =
        read? o (before.flatMap Item.words ++ (j.words ++ (i.words ++ ys)))) ∧
    ∀ program (o : Options) (items : List Item), o.Writable → items.Perm o.written →
      ofArguments? (program :: items.flatMap Item.words) = some o :=
  ⟨fun _ _ => read?_iff, fun _ _ => words_inj, fun _ _ _ _ => read?_append,
    fun _ before _ _ _ => read?_comm before, fun program _ _ writable perm =>
      ofArguments?_written writable perm program⟩

/-- Some options are read back from their items in reverse order; what follows is read into them, and a
setting and the flag that stands alone may change places. -/
theorem reads_items_sample :
    ofArguments? ["demo", "--overload", "--log-level", "debug", "--seconds", "3", "--workers", "2",
      "--mode", "TELEMETRY"] = some ⟨.telemetry, 2, 3, true, .debug⟩ ∧
    read? {} (["--seconds", "3"] ++ ["--seconds", "4"]) = read? { seconds := 3 } ["--seconds", "4"] ∧
    read? {} ["--seconds", "3", "--overload"] = read? {} ["--overload", "--seconds", "3"] := by
  obtain ⟨_, _, continues, commutes, back⟩ := reads_items
  have writable : Writable ⟨.telemetry, 2, 3, true, .debug⟩ := ⟨by decide, by decide, by decide⟩
  refine ⟨back "demo" _ _ writable (List.reverse_perm _), continues _ _ _ _ (by rfl), ?_⟩
  exact commutes {} [] (.setting .seconds "3") .overload [] (by decide)

end Options

end Cadence
