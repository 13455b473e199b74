import HyperliquidEngine.Json
import Mathlib.Data.List.Basic

/-!
# The command line of the engine process (main.cpp:14–83)

Before it builds the queues, engines, feed handler and publisher of
`HyperliquidEngine.Pipeline`, `main` reads its options into a `ProgramConfig`. Each option is
taken only when a value follows it; anything else is skipped. `--symbols` and `--cpu-cores`
split their value at every `,` and append the pieces, so repeated options accumulate.
`--price-band` reads `min:max` with `std::stoll`, and is skipped without a `:`. An exception of
`std::stoll` or `std::stoi` leaves `main` uncaught (`std::terminate`). `--help` prints the usage
and exits with `0`. Without an input file, or without a symbol, `main` exits with `1`.

- `splitCommas_eq_splitOn`: the splitting loop is `List.splitOn`, so that Mathlib's
  `splitOn_intercalate` and `intercalate_splitOn` make it a bijection between texts and
  non-empty lists of comma-free pieces (`splitCommas_roundTrip`);
- `strtoNum_decimalInt`: `strtoll` reads back what `operator<<` writes for every integer;
- `main_arguments`: `main` starts with exactly the configuration a launcher writes as
  arguments, whenever its symbols hold no `,` and its numbers fit their C++ types.
-/

namespace HyperliquidEngine

namespace CommandLine

open Json

/-- `ProgramConfig` (main.cpp:14–21), with its default member initializers. -/
structure ProgramConfig where
  inputFile : String := ""
  outputDir : String := "results"
  symbols : List String := []
  cpuCores : List Int := []
  minPrice : Int := 1
  maxPrice : Int := 100000
  deriving DecidableEq, Repr

/-! ## Reading numbers -/

/-- `isspace` in the `"C"` locale. -/
def isSpace (c : Char) : Bool :=
  c = ' ' || c = '\t' || c = '\n' || c = '\x0b' || c = '\x0c' || c = '\r'

/-- One digit of `strtol`/`strtoll`, in exact arithmetic: `value * 10 + (c - '0')`. -/
def digitValue (value : Int) (c : Char) : Int := value * 10 + ((c.toNat : Int) - 48)

/-- The sign `strtol` and `strtoll` accept before the digits: negative for `-`. -/
def sign : List Char → Bool × List Char
  | '-' :: r => (true, r)
  | '+' :: r => (false, r)
  | r => (false, r)

/-- The number `strtol` and `strtoll` read in base 10: white space, an optional sign, then the
longest run of digits; none without a digit. What follows the digits is ignored. -/
def strtoNum (s : List Char) : Option Int :=
  let t := sign (s.dropWhile isSpace)
  let ds := t.2.takeWhile Char.isDigit
  if ds = [] then none
  else some (if t.1 then -ds.foldl digitValue 0 else ds.foldl digitValue 0)

/-- `std::stoll(str)`: `std::invalid_argument` without a digit, `std::out_of_range` outside
`long long`. -/
def stoll (s : List Char) : Except String Int :=
  match strtoNum s with
  | none => .error "stoll"
  | some x => if InInt64 x then .ok x else .error "stoll"

/-- `std::stoi(str)`: `strtol`, then `std::out_of_range` outside `int` as well. -/
def stoi (s : List Char) : Except String Int :=
  match strtoNum s with
  | none => .error "stoi"
  | some x => if -2147483648 ≤ x ∧ x < 2147483648 then .ok x else .error "stoi"

/-! ## The argument loop -/

/-- The splitting loop of `--symbols` and `--cpu-cores` (main.cpp:44–50, 60–66): while
`pos = s.find(',')` is found, take `s.substr(0, pos)` and `s.erase(0, pos + 1)`; then take
what is left. -/
def splitCommas (s : List Char) : List (List Char) :=
  if h : s.indexOf ',' < s.length then s.take (s.indexOf ',') :: splitCommas (s.drop (s.indexOf ',' + 1))
  else [s]
termination_by s.length
decreasing_by simp only [List.length_drop]; omega

/-- `main`'s loop over `argv[1]`, `argv[2]`, … (main.cpp:38–71): `ok none` for `--help`, and the
`what()` of an uncaught exception. -/
def parseArgs (config : ProgramConfig) : List String → Except String (Option ProgramConfig)
  | "--input" :: v :: rest => parseArgs { config with inputFile := v } rest
  | "--output" :: v :: rest => parseArgs { config with outputDir := v } rest
  | "--symbols" :: v :: rest =>
    parseArgs { config with symbols := config.symbols ++ (splitCommas v.toList).map String.mk } rest
  | "--price-band" :: v :: rest =>
    if v.toList.indexOf ':' < v.toList.length then do
      let minPrice ← stoll (v.toList.take (v.toList.indexOf ':'))
      let maxPrice ← stoll (v.toList.drop (v.toList.indexOf ':' + 1))
      parseArgs { config with minPrice, maxPrice } rest
    else parseArgs config rest
  | "--cpu-cores" :: v :: rest => do
    let cores ← (splitCommas v.toList).mapM stoi
    parseArgs { config with cpuCores := config.cpuCores ++ cores } rest
  | "--help" :: _ => .ok none
  | _ :: rest => parseArgs config rest
  | [] => .ok (some config)

/-- How `main` goes on after reading its arguments: it starts the process on a configuration,
returns an exit code, or ends in `std::terminate` with an exception's `what()`. -/
inductive Startup where
  | start (config : ProgramConfig)
  | exit (code : Nat)
  | terminate (what : String)
  deriving DecidableEq, Repr

/-- `main` up to the start of its threads (main.cpp:34–83). -/
def main (args : List String) : Startup :=
  match parseArgs {} args with
  | .error what => .terminate what
  | .ok none => .exit 0
  | .ok (some c) => if c.inputFile = "" then .exit 1 else if c.symbols = [] then .exit 1 else .start c

/-- The arguments a launcher writes for `c`: every option once, the numbers as `operator<<`
writes them, and `--cpu-cores` only for a non-empty list (the option always adds a core). -/
def arguments (c : ProgramConfig) : List String :=
  ["--input", c.inputFile, "--output", c.outputDir,
    "--symbols", String.mk ([','].intercalate (c.symbols.map String.toList)),
    "--price-band", String.mk (decimalInt c.minPrice ++ ':' :: decimalInt c.maxPrice)] ++
  if c.cpuCores = [] then []
  else ["--cpu-cores", String.mk ([','].intercalate (c.cpuCores.map decimalInt))]

/-! ## Splitting -/

/-- Around the first `,` of a text that holds one. -/
theorem take_indexOf_append : ∀ {s : List Char}, ',' ∈ s →
    s.take (s.indexOf ',') ++ ',' :: s.drop (s.indexOf ',' + 1) = s ∧ ',' ∉ s.take (s.indexOf ',')
  | c :: s, h => by
    by_cases hc : c = ','
    · subst hc
      simp [List.indexOf_cons_self]
    · have ih := take_indexOf_append ((List.mem_cons.1 h).resolve_left (Ne.symm hc))
      rw [List.indexOf_cons_ne _ hc]
      exact ⟨by simpa using ih.1, by simpa [hc, Ne.symm hc] using ih.2⟩

/-- **The splitting loop is `List.splitOn`.** -/
theorem splitCommas_eq_splitOn (s : List Char) : splitCommas s = s.splitOn ',' := by
  induction s using splitCommas.induct with
  | case1 s h ih =>
    obtain ⟨hs, hnot⟩ := take_indexOf_append (s := s) (List.indexOf_lt_length.1 h)
    have hfree : ∀ x ∈ s.take (s.indexOf ','), ¬(x == ',') = true :=
      fun x hx hxc => hnot (beq_iff_eq.1 hxc ▸ hx)
    rw [splitCommas, dif_pos h, ih]
    conv_rhs => rw [← hs]
    exact (List.splitOnP_first _ _ hfree ',' (beq_self_eq_true ',') _).symm
  | case2 s h =>
    have hfree : ∀ x ∈ s, ¬(x == ',') = true :=
      fun x hx hxc => h (List.indexOf_lt_length.2 (beq_iff_eq.1 hxc ▸ hx))
    rw [splitCommas, dif_neg h]
    exact (List.splitOnP_eq_single _ _ hfree).symm

/-! ## Reading a written number -/

theorem foldl_digitValue_decimal (n : Nat) : (decimal n).foldl digitValue 0 = n := by
  induction n using Nat.strong_induction_on with
  | _ n ih =>
    have hd := (digitChar_spec (n % 10) (Nat.mod_lt _ (by omega))).2
    rw [decimal_eq, List.foldl_append, List.foldl_cons, List.foldl_nil]
    split_ifs with h10
    · simp only [List.foldl_nil, digitValue, hd]
      omega
    · rw [ih (n / 10) (by omega)]
      simp only [digitValue, hd]
      omega

theorem isSpace_of_isDigit {c : Char} (h : c.isDigit = true) : isSpace c = false := by
  by_contra hs
  simp only [isSpace, Bool.not_eq_false, Bool.or_eq_true, decide_eq_true_eq] at hs
  rcases hs with ((((rfl | rfl) | rfl) | rfl) | rfl) | rfl <;> exact absurd h (by decide)

/-- The digits of `n` begin with a digit: no white space, no sign. -/
theorem dropWhile_decimal (n : Nat) : (decimal n).dropWhile isSpace = decimal n := by
  obtain ⟨d, ds, hds, hd⟩ := exists_decimal_eq_cons n
  rw [hds, List.dropWhile_cons, isSpace_of_isDigit hd]
  rfl

theorem sign_decimal (n : Nat) : sign (decimal n) = (false, decimal n) := by
  obtain ⟨d, ds, hds, hd⟩ := exists_decimal_eq_cons n
  have h₁ : d ≠ '-' := by rintro rfl; exact absurd hd (by decide)
  have h₂ : d ≠ '+' := by rintro rfl; exact absurd hd (by decide)
  rw [hds]
  unfold sign
  split <;> simp_all

/-- **`strtoll` reads back what `operator<<` writes**, for every integer. -/
theorem strtoNum_decimalInt (x : Int) : strtoNum (decimalInt x) = some x := by
  have hall (n : Nat) : (decimal n).takeWhile Char.isDigit = decimal n :=
    List.takeWhile_eq_self_iff.2 (isDigit_of_mem_decimal n)
  have hne (n : Nat) : decimal n ≠ [] := by rw [decimal_eq]; simp
  unfold decimalInt
  split_ifs with hx
  · have hm : ('-' :: decimal x.natAbs).dropWhile isSpace = '-' :: decimal x.natAbs := by
      rw [List.dropWhile_cons, if_neg (by decide)]
    simp only [strtoNum, hm, sign, hall, hne, if_false, if_true, foldl_digitValue_decimal]
    exact congrArg some (by omega)
  · simp only [strtoNum, dropWhile_decimal, sign_decimal, hall, hne, if_false,
      foldl_digitValue_decimal, Bool.false_eq_true]
    exact congrArg some (by omega)

theorem mem_decimalInt {x : Int} {c : Char} (h : c ∈ decimalInt x) : c = '-' ∨ c.isDigit = true := by
  unfold decimalInt at h
  split_ifs at h
  · rcases List.mem_cons.1 h with h | h
    · exact .inl h
    · exact .inr (isDigit_of_mem_decimal _ c h)
  · exact .inr (isDigit_of_mem_decimal _ c h)

theorem stoll_decimalInt {x : Int} (hx : InInt64 x) : stoll (decimalInt x) = .ok x := by
  simp [stoll, strtoNum_decimalInt, hx]

theorem mapM_stoi_decimalInt :
    ∀ {xs : List Int}, (∀ x ∈ xs, -2147483648 ≤ x ∧ x < 2147483648) →
      (xs.map decimalInt).mapM stoi = .ok xs
  | [], _ => rfl
  | x :: xs, h => by
    have hx : stoi (decimalInt x) = .ok x := by
      simp [stoi, strtoNum_decimalInt, h x (List.mem_cons_self x xs)]
    rw [List.map_cons, List.mapM_cons, hx,
      mapM_stoi_decimalInt fun y hy => h y (List.mem_cons_of_mem x hy)]
    rfl

/-! ## The command line read back -/

/-- The pieces the splitting loop takes from comma-free pieces joined by `,`. -/
theorem splitCommas_intercalate {ls : List (List Char)} (hx : ∀ l ∈ ls, ',' ∉ l) (hls : ls ≠ []) :
    splitCommas ([','].intercalate ls) = ls := by
  rw [splitCommas_eq_splitOn, List.splitOn_intercalate _ ',' hx hls]

/-- The pieces of the splitting loop hold no `,`. -/
theorem comma_not_mem_splitCommas (s : List Char) : ∀ p ∈ splitCommas s, ',' ∉ p := by
  induction s using splitCommas.induct with
  | case1 s h ih =>
    rw [splitCommas, dif_pos h]
    exact List.forall_mem_cons.2 ⟨(take_indexOf_append (List.indexOf_lt_length.1 h)).2, ih⟩
  | case2 s h =>
    rw [splitCommas, dif_neg h]
    exact List.forall_mem_singleton.2 fun hc => h (List.indexOf_lt_length.2 hc)

/-- **The splitting loop is a bijection** between texts and non-empty lists of comma-free
pieces: every text splits into comma-free pieces that rejoin to it, and a comma-free list joined
by `,` splits back into itself. -/
theorem splitCommas_roundTrip :
    (∀ s, [','].intercalate (splitCommas s) = s ∧ ∀ p ∈ splitCommas s, ',' ∉ p) ∧
      ∀ ls : List (List Char), (∀ l ∈ ls, ',' ∉ l) → ls ≠ [] →
        splitCommas ([','].intercalate ls) = ls :=
  ⟨fun s => ⟨by rw [splitCommas_eq_splitOn, List.intercalate_splitOn], comma_not_mem_splitCommas s⟩,
    fun _ hx hls => splitCommas_intercalate hx hls⟩

theorem comma_not_mem_decimalInt (x : Int) : ',' ∉ decimalInt x := fun h => by
  rcases mem_decimalInt h with h | h
  · cases h
  · exact absurd h (by decide)

/-- `--price-band` on `min:max` as `operator<<` writes them. -/
theorem priceBand_split (lo hi : Int) :
    (decimalInt lo ++ ':' :: decimalInt hi).indexOf ':' = (decimalInt lo).length := by
  have hlo : ':' ∉ decimalInt lo := fun h => by
    rcases mem_decimalInt h with h | h
    · cases h
    · exact absurd h (by decide)
  rw [List.indexOf_append_of_not_mem hlo, List.indexOf_cons_self, Nat.add_zero]

/-- **`main` starts on exactly the configuration a launcher writes**: for every configuration
with an input file, at least one symbol, no `,` in a symbol, prices in `long long` and cores in
`int`, `main` reads `arguments c` back as `c`. -/
theorem main_arguments (c : ProgramConfig) (hin : c.inputFile ≠ "") (hs : c.symbols ≠ [])
    (hsc : ∀ s ∈ c.symbols, ',' ∉ s.toList) (hmin : InInt64 c.minPrice) (hmax : InInt64 c.maxPrice)
    (hcores : ∀ x ∈ c.cpuCores, -2147483648 ≤ x ∧ x < 2147483648) :
    main (arguments c) = .start c := by
  have hsym : (splitCommas ([','].intercalate (c.symbols.map String.toList))).map String.mk =
      c.symbols := by
    rw [splitCommas_intercalate (by simpa using hsc) (by simpa using hs), List.map_map]
    exact List.map_id' _ ▸ rfl
  have hband := priceBand_split c.minPrice c.maxPrice
  have htl (l : List Char) : (String.mk l).toList = l := rfl
  by_cases hc : c.cpuCores = []
  · simp only [main, arguments, hc, if_true, List.cons_append, List.nil_append, parseArgs, htl]
    simp [hband, hsym, stoll_decimalInt hmin, stoll_decimalInt hmax, bind, Except.bind, hin, hs]
    rw [← hc]
  · have hcpu : (splitCommas ([','].intercalate (c.cpuCores.map decimalInt))).mapM stoi = .ok c.cpuCores := by
      rw [splitCommas_intercalate (by simpa using fun x _ => comma_not_mem_decimalInt x) (by simpa using hc),
        mapM_stoi_decimalInt hcores]
    simp only [main, arguments, hc, if_false, List.cons_append, List.nil_append, parseArgs, htl, hcpu]
    simp [hband, hsym, stoll_decimalInt hmin, stoll_decimalInt hmax, bind, Except.bind, hin, hs]

/-- The command line of the source's usage text: two symbols and four cores. -/
def launchConfig : ProgramConfig :=
  { inputFile := "orders.bin", symbols := ["BTC", "ETH"], cpuCores := [0, 1, 2, 3] }

theorem main_arguments_launchConfig :
    launchConfig.inputFile ≠ "" ∧ launchConfig.symbols ≠ [] ∧
      (∀ s ∈ launchConfig.symbols, ',' ∉ s.toList) ∧ InInt64 launchConfig.minPrice ∧
      InInt64 launchConfig.maxPrice ∧
      (∀ x ∈ launchConfig.cpuCores, -2147483648 ≤ x ∧ x < 2147483648) ∧
      main (arguments launchConfig) = .start launchConfig :=
  ⟨by decide, by decide, by decide, by decide, by decide, by decide,
    main_arguments launchConfig (by decide) (by decide) (by decide) (by decide) (by decide) (by decide)⟩

/-- A price band without digits ends in `std::terminate`; repeated options accumulate, and a
band without `:` is skipped. -/
example : main ["--input", "orders.bin", "--price-band", "abc:10", "--symbols", "BTC"] =
    .terminate "stoll" := by decide

example : main ["--input", "orders.bin", "--symbols", "BTC", "--symbols", "ETH,SOL", "--price-band", "5"] =
    .start { inputFile := "orders.bin", symbols := ["BTC", "ETH", "SOL"] } := by
  simp only [main, parseArgs, splitCommas_eq_splitOn]
  decide

end CommandLine

end HyperliquidEngine
