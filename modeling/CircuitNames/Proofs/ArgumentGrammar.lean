import CircuitNames.Command.Arguments
import CircuitNames.Proofs.Binds

namespace CircuitNames

/-- The format of a name that is one of the two. -/
def Emit.ofName (name : String) : Emit := if name = text.name then text else json

theorem Emit.name_ofName {name : String} (known : name = json.name ∨ name = text.name) :
    (ofName name).name = name := by
  rcases known with rfl | rfl <;> decide

theorem Emit.name_injective : Function.Injective Emit.name := by
  rintro (_ | _) (_ | _) same <;> revert same <;> decide

namespace Arguments

/-- The argument that asks for an option. -/
def Flag.text : Flag → String
  | config => "--config"
  | out => "--out"
  | renames => "--renames"
  | renamesIn => "--renames-in"
  | emit => "--emit"

theorem Flag.ofText?_eq_some {argument : String} {flag : Flag} :
    ofText? argument = some flag ↔ argument = flag.text := by
  constructor
  · intro known
    unfold ofText? at known
    split at known
    all_goals cases known
    all_goals rfl
  · rintro rfl
    cases flag <;> rfl

theorem Flag.head?_text (flag : Flag) : flag.text.toList.head? = some '-' := by cases flag <;> decide

/-- A value with the option it is given for. The input is given for none. -/
structure Item where
  flag : Option Flag
  value : String
deriving DecidableEq

namespace Item

/-- The arguments that an item is written in. -/
def words (item : Item) : List String := (item.flag.map Flag.text).toList ++ [item.value]

/-- Every text is a value of an option, but the format is one of two. The input does not begin like an
option. -/
def Sound (item : Item) : Prop :=
  match item.flag with
  | none => item.value.toList.head? ≠ some '-'
  | some .emit => item.value = Emit.json.name ∨ item.value = Emit.text.name
  | some _ => True

/-- Puts the value of an item in its place, whatever it is. -/
def place (dir : Path) (options : Options) (item : Item) : Options :=
  match item.flag with
  | none => { options with input := some (dir.resolve item.value) }
  | some .config => { options with config := some (dir.resolve item.value) }
  | some .out => { options with out := some (dir.resolve item.value) }
  | some .renames => { options with renames := some (dir.resolve item.value) }
  | some .renamesIn => { options with renamesIn := some (dir.resolve item.value) }
  | some .emit => { options with emit := Emit.ofName item.value }

/-- What becomes of the options at one item. -/
def set (dir : Path) (options : Options) (item : Item) : Except ArgumentFault Options :=
  match item.flag with
  | none => setInput dir options item.value
  | some flag => setFlag dir options item.value flag

end Item

variable {dir : Path} {options found : Options} {item : Item} {items : List Item} {argv : List String}

/-- An item is taken in when its value suits its option and no second input is given, and it then has its
place. -/
theorem Item.set_eq_ok : item.set dir options = .ok found ↔
    item.Sound ∧ (item.flag = none → options.input = none) ∧ found = item.place dir options := by
  obtain ⟨flag, value⟩ := item
  cases flag with
  | none =>
    simp only [set, setInput, Sound, place, true_imp_iff]
    by_cases dash : value.toList.head? = some '-'
    · by_cases help : value = "--help" ∨ value = "-h" <;> simp [help, dash]
    · have noHelp : ¬(value = "--help" ∨ value = "-h") := by
        rintro (rfl | rfl)
        · exact dash (by decide)
        · exact dash (by decide)
      cases options.input <;> simp [noHelp, dash, eq_comm]
  | some flag =>
    cases flag with
    | emit =>
      simp only [set, setFlag, Sound, place, Emit.name]
      split
      · simp [eq_comm, Emit.ofName, Emit.name]
      · simp [eq_comm, Emit.ofName, Emit.name]
      · rename_i notJson notText
        exact iff_of_false (fun failed => by cases failed) fun ⟨sound, _⟩ => sound.elim notJson notText
    | _ => simp [set, setFlag, Sound, place, eq_comm]

/-- What is no option is the input, wherever it stands. -/
theorem readOptions_input {argument : String} (plain : Flag.ofText? argument = none)
    (rest : List String) :
    readOptions dir options (argument :: rest) = setInput dir options argument >>= fun set =>
      readOptions dir set rest := by
  cases rest with
  | nil =>
    rw [readOptions, plain]
    cases setInput dir options argument <;> rfl
  | cons next rest =>
    rw [readOptions, plain]

/-- What does not begin like an option asks for none. -/
theorem ofText?_of_sound {value : String} (sound : Item.Sound ⟨none, value⟩) : Flag.ofText? value = none := by
  cases known : Flag.ofText? value with
  | none => rfl
  | some flag =>
    obtain rfl := Flag.ofText?_eq_some.mp known
    exact absurd flag.head?_text sound

/-- The options are read item by item. -/
theorem readOptions_words (plain : item.flag = none → Flag.ofText? item.value = none) (rest : List String) :
    readOptions dir options (item.words ++ rest) = item.set dir options >>= fun set =>
      readOptions dir set rest := by
  obtain ⟨flag, value⟩ := item
  cases flag with
  | none => exact readOptions_input (plain rfl) rest
  | some flag =>
    have asks : Flag.ofText? flag.text = some flag := Flag.ofText?_eq_some.mpr rfl
    change readOptions dir options (flag.text :: value :: rest) = _
    rw [readOptions, asks]
    rfl

/-- What is given for an option, or as the input, in the order in which it is given. -/
def given (flag : Option Flag) (items : List Item) :
    List String := (items.filter (·.flag = flag)).map Item.value

theorem given_cons (flag : Option Flag) (item : Item) (items : List Item) :
    given flag (item :: items) = if item.flag = flag then item.value :: given flag items
      else given flag items := by
  by_cases same : item.flag = flag <;> simp [given, same]

/-- The input is given once at most, and not at all once there is one. -/
def Room (options : Options) (items : List Item) :
    Prop := options.input.toList.length + (given none items).length ≤ 1

/-- There is room for items just when there is room for the first one and then for the others. -/
theorem room_cons (rest : List Item) : Room options (item :: rest) ↔
    (item.flag = none → options.input = none) ∧ Room (item.place dir options) rest := by
  obtain ⟨flag, value⟩ := item
  cases flag with
  | none =>
    cases here : options.input with
    | none =>
      simp only [Room, given_cons, Item.place, here, if_true, Option.toList_none, Option.toList_some,
        List.length_nil, List.length_cons, implies_true, true_and]
      omega
    | some input => simp [Room, given_cons, Item.place, here]
  | some flag => cases flag <;> simp [Room, given_cons, Item.place]

/-- The arguments are written as sound items, with room for the input among them, and the options are found in
the end. -/
def Written (dir : Path) (options : Options) (argv : List String) (found : Options) : Prop :=
  ∃ items, argv = items.flatMap Item.words ∧ (∀ item ∈ items, item.Sound) ∧ Room options items ∧
    found = items.foldl (Item.place dir) options

theorem Written.nil (dir : Path) (options : Options) : Written dir options [] options := by
  refine ⟨[], rfl, by simp, ?_, rfl⟩
  cases here : options.input <;> simp [Room, given, here]

/-- The others are written with the options that the first item leaves. -/
theorem Written.cons (item : Item) {set : Options} (done : item.set dir options = .ok set)
    (later : Written dir set argv found) :
    Written dir options (item.words ++ argv) found := by
  obtain ⟨sound, free, rfl⟩ := Item.set_eq_ok.mp done
  obtain ⟨items, rfl, others, room, rfl⟩ := later
  exact ⟨item :: items, rfl, List.forall_mem_cons.mpr ⟨sound, others⟩,
    (room_cons items).mpr ⟨free, room⟩, rfl⟩

/-- Options are read from exactly the arguments that are written as sound items, with one input among them at
most. -/
theorem readOptions_eq_ok : readOptions dir options argv = .ok found ↔ Written dir options argv found := by
  constructor
  · intro read
    -- An item is the first argument with the next one for its value, or the first argument alone.
    induction options, argv using readOptions.induct with
    | case1 options =>
      obtain rfl := Except.ok.inj read
      exact Written.nil dir options
    | case2 options last flag asks =>
      rw [readOptions, asks] at read
      cases read
    | case3 options last plain =>
      rw [readOptions, plain] at read
      exact Written.cons ⟨none, last⟩ read (Written.nil dir found)
    | case4 options argument next rest flag asks ih =>
      rw [readOptions, asks] at read
      obtain ⟨set, done, later⟩ := bind_eq_ok.mp read
      obtain rfl := Flag.ofText?_eq_some.mp asks
      exact Written.cons ⟨some flag, next⟩ done (ih set later)
    | case5 options argument next rest plain ih =>
      rw [readOptions, plain] at read
      obtain ⟨set, done, later⟩ := bind_eq_ok.mp read
      exact Written.cons ⟨none, argument⟩ done (ih set later)
  · rintro ⟨items, rfl, sound, room, rfl⟩
    induction items generalizing options with
    | nil => rfl
    | cons item rest ih =>
      obtain ⟨own, others⟩ := List.forall_mem_cons.mp sound
      obtain ⟨free, roomLater⟩ := (room_cons rest).mp room
      have plain : item.flag = none → Flag.ofText? item.value = none := by
        intro isInput
        exact ofText?_of_sound (by simpa [Item.Sound, isInput] using own)
      rw [List.flatMap_cons, readOptions_words plain]
      exact bind_ok (Item.set_eq_ok.mpr ⟨own, free, rfl⟩) (ih others roomLater)

/-- An option that items of one sort put a value in holds the last one, and otherwise what it held before. -/
theorem foldl_place {α : Type} (get : Options → α) (put : String → α) (flag : Option Flag)
    (step : ∀ options item,
      get (Item.place dir options item) = if item.flag = flag then put item.value else get options)
    (options : Options) (items : List Item) :
    get (items.foldl (Item.place dir) options) =
      ((given flag items).getLast?.map put).getD (get options) := by
  induction items generalizing options with
  | nil => rfl
  | cons item rest ih =>
    rw [List.foldl_cons, ih, step, given_cons]
    by_cases same : item.flag = flag
    · rw [if_pos same, if_pos same, List.getLast?_cons]
      cases (given flag rest).getLast? <;> rfl
    · rw [if_neg same, if_neg same]

/-- What items leave in the end: of each sort the last value. -/
theorem foldl_place_noOptions (items : List Item) : items.foldl (Item.place dir) noOptions =
    { input := (given none items).getLast?.map dir.resolve
      config := (given (some .config) items).getLast?.map dir.resolve
      out := (given (some .out) items).getLast?.map dir.resolve
      renames := (given (some .renames) items).getLast?.map dir.resolve
      renamesIn := (given (some .renamesIn) items).getLast?.map dir.resolve
      emit := ((given (some .emit) items).getLast?.map Emit.ofName).getD .json } := by
  have path (get : Options → Option Path) (flag : Option Flag) (before : get noOptions = none)
      (step : ∀ options item,
        get (Item.place dir options item) = if item.flag = flag then some (dir.resolve item.value)
          else get options) :
      get (items.foldl (Item.place dir) noOptions) = (given flag items).getLast?.map dir.resolve := by
    rw [foldl_place get (some ∘ dir.resolve) flag step, before]
    cases (given flag items).getLast? <;> rfl
  refine Options.mk.injEq .. |>.mpr
    ⟨path Options.input none rfl ?_, path Options.config (some .config) rfl ?_,
    path Options.out (some .out) rfl ?_, path Options.renames (some .renames) rfl ?_,
    path Options.renamesIn (some .renamesIn) rfl ?_,
    foldl_place Options.emit Emit.ofName (some .emit) ?_ noOptions items⟩
  all_goals
    rintro options ⟨flag, value⟩
    rcases flag with _ | _ | _ | _ | _ | _ <;> rfl

/-- How a list of arguments is read from left to right: as sound items, with one input among them. -/
structure Reading (argv : List String) (items : List Item) : Prop where
  written : argv = items.flatMap Item.words
  sound : ∀ item ∈ items, item.Sound
  single : ∃ input, given none items = [input]

/-- Every argument of a run is the last value that is given for it; the format is JSON where none is given. -/
structure Answers (dir : Path) (items : List Item) (arguments : Arguments) : Prop where
  input : some arguments.input = (given none items).getLast?.map dir.resolve
  config : arguments.config = (given (some .config) items).getLast?.map dir.resolve
  out : arguments.out = (given (some .out) items).getLast?.map dir.resolve
  renames : arguments.renames = (given (some .renames) items).getLast?.map dir.resolve
  renamesIn : arguments.renamesIn = (given (some .renamesIn) items).getLast?.map dir.resolve
  emit : arguments.emit.name = (given (some .emit) items).getLast?.getD Emit.json.name

variable {arguments : Arguments} {others : List Item}

theorem read_eq_ok : read dir argv = .ok arguments ↔
    ∃ options, Written dir noOptions argv options ∧ options.input = some arguments.input ∧
      arguments = { options with input := arguments.input } := by
  unfold read
  rw [bind_eq_ok]
  refine exists_congr fun options => and_congr readOptions_eq_ok ?_
  obtain ⟨input, config, out, renames, renamesIn, emit⟩ := options
  cases input with
  | none => simp
  | some input =>
    constructor
    · intro same
      obtain rfl := Except.ok.inj same
      exact ⟨rfl, rfl⟩
    · rintro ⟨sameInput, same⟩
      rw [same, ← Option.some.inj sameInput]
      rfl

theorem mem_given {flag : Option Flag} {value : String} :
    value ∈ given flag items ↔ ⟨flag, value⟩ ∈ items := by
  simp only [given, List.mem_map, List.mem_filter, decide_eq_true_eq]
  constructor
  · rintro ⟨item, ⟨inside, rfl⟩, rfl⟩
    exact inside
  · intro inside
    exact ⟨_, ⟨inside, rfl⟩, rfl⟩

/-- Items that are sound and have one input between them are read, and the result answers them. -/
theorem Reading.answers (reading : Reading argv items) (dir : Path) :
    ∃ arguments, read dir argv = .ok arguments ∧ Answers dir items arguments := by
  obtain ⟨input, only⟩ := reading.single
  have room : Room noOptions items := by simp [Room, only, noOptions]
  refine ⟨{ items.foldl (Item.place dir) noOptions with input := dir.resolve input }, read_eq_ok.mpr
    ⟨_, ⟨items, reading.written, reading.sound, room, rfl⟩, ?_, rfl⟩, ?_⟩
  · rw [foldl_place_noOptions, only]
    rfl
  · rw [foldl_place_noOptions]
    refine ⟨by rw [only]; rfl, rfl, rfl, rfl, rfl, ?_⟩
    cases last : (given (some .emit) items).getLast? with
    | none => rfl
    | some value => exact Emit.name_ofName (reading.sound _ (mem_given.mp (List.mem_of_getLast? last)))

/-- Whatever is read comes apart into items, from left to right: an option takes what comes next as its value.
-/
theorem exists_reading (run : read dir argv = .ok arguments) : ∃ items, Reading argv items := by
  obtain ⟨options, ⟨items, written, sound, room, rfl⟩, input, -⟩ := read_eq_ok.mp run
  rw [foldl_place_noOptions] at input
  obtain ⟨value, last, -⟩ := Option.map_eq_some_iff.mp input
  have length : (given none items).length = 1 := by
    have some_ := List.length_pos_of_mem (List.mem_of_getLast? last)
    simp only [Room, noOptions, Option.toList_none, List.length_nil] at room
    omega
  exact ⟨items, written, sound, List.length_eq_one_iff.mp length⟩

theorem Answers.unique {again : Arguments} (answers : Answers dir items arguments)
    (answersAgain : Answers dir items again) :
    arguments = again := by
  obtain ⟨input, config, out, renames, renamesIn, emit⟩ := arguments
  obtain ⟨inputAgain, configAgain, outAgain, renamesAgain, renamesInAgain, emitAgain⟩ := again
  rw [Arguments.mk.injEq]
  exact ⟨Option.some.inj (answers.input.trans answersAgain.input.symm),
    answers.config.trans answersAgain.config.symm,
    answers.out.trans answersAgain.out.symm, answers.renames.trans answersAgain.renames.symm,
    answers.renamesIn.trans answersAgain.renamesIn.symm,
    Emit.name_injective (answers.emit.trans answersAgain.emit.symm)⟩

theorem Answers.of_given (answers : Answers dir items arguments)
    (same : ∀ flag, given flag others = given flag items) :
    Answers dir others arguments := by
  obtain ⟨input, config, out, renames, renamesIn, emit⟩ := answers
  constructor <;> rwa [same]

/-- Items of different sorts may change places: only the values given for each sort matter, in their order. -/
theorem Reading.of_given (reading : Reading argv items)
    (same : ∀ flag, given flag others = given flag items) :
    Reading (others.flatMap Item.words) others where
  written := rfl
  sound item inside := reading.sound item (mem_given.mp (same item.flag ▸ mem_given.mpr inside))
  single := same none ▸ reading.single

/-- The arguments of a run are read from exactly the lists that are written as sound items with one input
among them. Every way to read a list so gives the last value of each option. Items of different sorts may
change places with the same result, as long as the values of each sort stay in order. -/
theorem read_by_grammar (dir : Path) :
    (∀ argv, (∃ arguments, read dir argv = .ok arguments) ↔ ∃ items, Reading argv items) ∧
    (∀ argv items, Reading argv items → ∃ arguments, read dir argv = .ok arguments ∧
      Answers dir items arguments) ∧
    ∀ items others, Reading (items.flatMap Item.words) items →
      (∀ flag, given flag others = given flag items) →
      read dir (others.flatMap Item.words) = read dir (items.flatMap Item.words) := by
  refine ⟨fun argv => ?_, fun argv items reading => reading.answers dir, fun items others reading same => ?_⟩
  · constructor
    · rintro ⟨arguments, run⟩
      exact exists_reading run
    · rintro ⟨items, reading⟩
      obtain ⟨arguments, run, -⟩ := reading.answers dir
      exact ⟨arguments, run⟩
  · obtain ⟨arguments, run, answers⟩ := reading.answers dir
    obtain ⟨again, runAgain, answersAgain⟩ := (reading.of_given same).answers dir
    rw [run, runAgain, (answers.of_given same).unique answersAgain]

namespace Sample

/-- The value of the first option looks like an option, the format is asked for twice and the input stands
between. -/
def mixed : List Item :=
  [⟨some .out, "--emit"⟩, ⟨some .emit, "text"⟩, ⟨none, "top.json"⟩, ⟨some .emit, "json"⟩,
    ⟨some .config, "c.json"⟩]

def sorted : List Item :=
  [⟨some .emit, "text"⟩, ⟨some .config, "c.json"⟩, ⟨some .emit, "json"⟩, ⟨some .out, "--emit"⟩,
    ⟨none, "top.json"⟩]

theorem reading : Reading (mixed.flatMap Item.words) mixed where
  written := rfl
  sound := by simp [mixed, Item.Sound, Emit.name]
  single := ⟨"top.json", rfl⟩

theorem same (flag : Option Flag) : given flag sorted = given flag mixed := by
  rcases flag with _ | _ | _ | _ | _ | _ <;> rfl

end Sample

theorem read_by_grammar_sample :
    (∃ arguments, read .root (Sample.mixed.flatMap Item.words) = .ok arguments ∧
      Answers .root Sample.mixed arguments) ∧
    read .root (Sample.sorted.flatMap Item.words) = read .root (Sample.mixed.flatMap Item.words) :=
  ⟨(read_by_grammar .root).2.1 _ Sample.mixed Sample.reading,
    (read_by_grammar .root).2.2 Sample.mixed Sample.sorted Sample.reading Sample.same⟩

end Arguments

end CircuitNames
