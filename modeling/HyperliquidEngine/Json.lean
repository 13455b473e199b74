import HyperliquidEngine.Types

/-!
# The JSON codec of order commands (json_serializer.h)

`json::to_json(const OrderCommand&)` writes a flat object of integer fields after
`"type":"order_command"`, the stop, iceberg and expiry fields only when they are not zero.
`parse_order_command` finds each key by substring search, `json.find("\"key\":")`, and reads
the number after it as `value = value * 10 + digit` in `int64_t`, negated after a leading `-`;
an absent key reads as `0`.

Text is a `List Char`. The parser's `int64_t` arithmetic wraps (`wrapInt64`), as everywhere in
the model: the digits of a `uint64_t` of `2^63` or more, and of `INT64_MIN`, pass through the
wrap and come back exactly.

- `afterFirst_field_ne`, `afterFirst_fieldsText_some`: the search for `"key":` passes every
  other key, since keys hold no quote, colon or comma and numbers hold no quote, and stops at the
  key's own field;
- `readInt_decimalInt`: the digit loop reads a written `int64_t` back;
- `parse_toJson`: **decoding undoes encoding** on every command whose signed fields are
  `int64_t` values.
-/

namespace HyperliquidEngine

/-! ## Enumerations as integers -/

/-- `static_cast<int>(type)`, the declared value of `CommandType`. -/
def CommandType.code : CommandType → Nat
  | .newOrder => 0
  | .cancelOrder => 1
  | .modifyOrder => 2

/-- `static_cast<int>(side)`, the declared value of `Side`. -/
def Side.code : Side → Nat
  | .bid => 0
  | .ask => 1

/-- `static_cast<int>(order_type)`, the declared value of `OrderType`. -/
def OrderType.code : OrderType → Nat
  | .limit => 0
  | .market => 1
  | .stopLimit => 2
  | .stopMarket => 3

/-- `static_cast<int>(tif)`, the declared value of `TimeInForce`. -/
def TimeInForce.code : TimeInForce → Nat
  | .gtc => 0
  | .ioc => 1
  | .fok => 2
  | .gtd => 3

/-- `static_cast<CommandType>(v)`: the enumerator of value `v mod 256` (the underlying type is
`uint8_t`), if one is declared. -/
def CommandType.ofCode? (v : Int) : Option CommandType :=
  match (v % 256).toNat with
  | 0 => some .newOrder
  | 1 => some .cancelOrder
  | 2 => some .modifyOrder
  | _ => none

/-- `static_cast<Side>(v)`. -/
def Side.ofCode? (v : Int) : Option Side :=
  match (v % 256).toNat with
  | 0 => some .bid
  | 1 => some .ask
  | _ => none

/-- `static_cast<OrderType>(v)`. -/
def OrderType.ofCode? (v : Int) : Option OrderType :=
  match (v % 256).toNat with
  | 0 => some .limit
  | 1 => some .market
  | 2 => some .stopLimit
  | 3 => some .stopMarket
  | _ => none

/-- `static_cast<TimeInForce>(v)`. -/
def TimeInForce.ofCode? (v : Int) : Option TimeInForce :=
  match (v % 256).toNat with
  | 0 => some .gtc
  | 1 => some .ioc
  | 2 => some .fok
  | 3 => some .gtd
  | _ => none

@[simp] theorem CommandType.ofCode?_code (t : CommandType) : CommandType.ofCode? t.code = some t := by
  cases t <;> rfl

@[simp] theorem Side.ofCode?_code (s : Side) : Side.ofCode? s.code = some s := by
  cases s <;> rfl

@[simp] theorem OrderType.ofCode?_code (t : OrderType) : OrderType.ofCode? t.code = some t := by
  cases t <;> rfl

@[simp] theorem TimeInForce.ofCode?_code (t : TimeInForce) : TimeInForce.ofCode? t.code = some t := by
  cases t <;> rfl

theorem CommandType.code_le (t : CommandType) : t.code ≤ 2 := by
  cases t <;> decide

theorem Side.code_lt (s : Side) : s.code < 256 := by cases s <;> decide

theorem OrderType.code_lt (t : OrderType) : t.code < 256 := by cases t <;> decide

theorem TimeInForce.code_lt (t : TimeInForce) : t.code < 256 := by cases t <;> decide

namespace Json

/-! ## Writing -/

/-- The character of the decimal digit `d`. -/
def digitChar (d : Nat) : Char := Char.ofNat (48 + d)

theorem digitChar_spec : ∀ d, d < 10 → (digitChar d).isDigit = true ∧ (digitChar d).toNat = 48 + d := by
  decide

/-- What `operator<<` writes for an unsigned integer: its decimal digits, most significant
first. -/
def decimal (n : Nat) : List Char :=
  (if n < 10 then [] else decimal (n / 10)) ++ [digitChar (n % 10)]
decreasing_by omega

/-- What `operator<<` writes for an `int64_t`: a `-` before the digits of a negative value. -/
def decimalInt (x : Int) : List Char :=
  if x < 0 then '-' :: decimal x.natAbs else decimal x.toNat

/-- `"key":value`, one member of the object. -/
def field (key : String) (value : List Char) : List Char :=
  '"' :: key.toList ++ '"' :: ':' :: value

/-- The members after the first, each written as `,"key":value`. -/
def fieldsText (fs : List (String × List Char)) : List Char :=
  (fs.map fun f => ',' :: field f.1 f.2).flatten

/-- The members `to_json(const OrderCommand&)` (json_serializer.h:77–105) writes after
`"type":"order_command"`, in its order: ten always, then `stop_price`, `display_qty` and
`expiry_ts` when they are not zero. -/
def jsonFields (cmd : OrderCommand) : List (String × List Char) :=
  [("command_type", decimal cmd.type.code), ("order_id", decimal cmd.orderId.toNat),
    ("symbol_id", decimal cmd.symbolId.toNat), ("user_id", decimal cmd.userId.toNat),
    ("price", decimalInt cmd.priceTicks), ("qty", decimalInt cmd.qty),
    ("side", decimal cmd.side.code), ("order_type", decimal cmd.orderType.code),
    ("tif", decimal cmd.tif.code), ("flags", decimal cmd.flags.toNat)] ++
  (if cmd.stopPrice ≠ 0 then [("stop_price", decimalInt cmd.stopPrice)] else []) ++
  (if cmd.displayQty ≠ 0 then [("display_qty", decimalInt cmd.displayQty)] else []) ++
  (if cmd.expiryTs ≠ 0 then [("expiry_ts", decimal cmd.expiryTs.toNat)] else [])

/-- `json::to_json(const OrderCommand&)`. -/
def toJson (cmd : OrderCommand) : List Char :=
  '\x7b' :: field "type" "\"order_command\"".toList ++ fieldsText (jsonFields cmd) ++ ['\x7d']

/-! ## Reading -/

/-- `json.find(search)` and then `pos += search.size()`: the text after the first occurrence of
`search`, or none for `npos`. -/
def afterFirst (search : List Char) : List Char → Option (List Char)
  | [] => if search = [] then some [] else none
  | c :: cs =>
    if search.isPrefixOf (c :: cs) then some ((c :: cs).drop search.length)
    else afterFirst search cs

/-- The text `find_int(key)` searches for, `"\"" + key + "\":"`. -/
def searchKey (key : String) : List Char := '"' :: key.toList ++ ['"', ':']

/-- The skip of `find_int` over spaces and tabs. -/
def skipBlanks : List Char → List Char
  | c :: cs => if c = ' ' ∨ c = '\t' then skipBlanks cs else c :: cs
  | [] => []

/-- One pass of the digit loop of `find_int`: `value * 10 + (json[pos] - '0')` in `int64_t`. -/
def digitStep (value : Int) (c : Char) : Int :=
  wrapInt64 (value * 10 + ((c.toNat : Int) - 48))

/-- The digit loop of `find_int`, while `'0' <= json[pos] <= '9'`. -/
def readDigits (value : Int) : List Char → Int
  | c :: cs => if c.isDigit then readDigits (digitStep value c) cs else value
  | [] => value

/-- What `find_int` reads after its key: blanks, an optional `-`, the digits; `-value` is
taken in `int64_t`. -/
def readInt (cs : List Char) : Int :=
  let cs := skipBlanks cs
  if cs.head? = some '-' then wrapInt64 (-readDigits 0 cs.tail) else readDigits 0 cs

/-- `find_int(key)`: the integer after the first `"key":`, or `0` without one. -/
def findInt (json : List Char) (key : String) : Int :=
  match afterFirst (searchKey key) json with
  | some rest => readInt rest
  | none => 0

/-- `find_uint(key)`: `static_cast<uint64_t>(find_int(key))`, modulo `2^64`. -/
def findUInt (json : List Char) (key : String) : UInt64 :=
  UInt64.ofNat (findInt json key % 18446744073709551616).toNat

/-- `parse_order_command(json)` (json_serializer.h:116–177): the error `"Invalid command_type"`
for a `command_type` outside `0 … 2`, else success. A success is `ok none` when the side, order
type or time in force read is a value no enumerator declares: the source casts it into the
enumeration, which the model's `OrderCommand` cannot hold. The source leaves `recv_ts` for
`handle_message` to stamp; the model puts `0`. -/
def parseOrderCommand (json : List Char) : Except String (Option OrderCommand) :=
  let cmdType := findInt json "command_type"
  if cmdType < 0 ∨ cmdType > 2 then .error "Invalid command_type"
  else .ok do
    let type ← CommandType.ofCode? cmdType
    let side ← Side.ofCode? (findInt json "side")
    let orderType ← OrderType.ofCode? (findInt json "order_type")
    let tif ← TimeInForce.ofCode? (findInt json "tif")
    pure
      { type := type, recvTs := 0, orderId := findUInt json "order_id",
        symbolId := (findUInt json "symbol_id").toUInt32,
        userId := (findUInt json "user_id").toUInt32, priceTicks := findInt json "price",
        qty := findInt json "qty", side := side, orderType := orderType, tif := tif,
        flags := (findUInt json "flags").toUInt32, stopPrice := findInt json "stop_price",
        displayQty := findInt json "display_qty", expiryTs := findUInt json "expiry_ts" }

/-! ## Reading a written number -/

theorem decimal_eq (n : Nat) :
    decimal n = (if n < 10 then [] else decimal (n / 10)) ++ [digitChar (n % 10)] := by
  rw [decimal]

theorem isDigit_of_mem_decimal (n : Nat) : ∀ c ∈ decimal n, c.isDigit = true := by
  induction n using Nat.strong_induction_on with
  | _ n ih =>
    intro c hc
    rw [decimal_eq] at hc
    rcases List.mem_append.1 hc with h | h
    · split_ifs at h with h10
      · simp at h
      · exact ih (n / 10) (by omega) c h
    · rw [List.mem_singleton.1 h]
      exact (digitChar_spec _ (Nat.mod_lt _ (by omega))).1

theorem exists_decimal_eq_cons (n : Nat) : ∃ d ds, decimal n = d :: ds ∧ d.isDigit = true := by
  obtain ⟨d, ds, h⟩ := List.exists_cons_of_ne_nil (show decimal n ≠ [] by rw [decimal_eq]; simp)
  exact ⟨d, ds, h, isDigit_of_mem_decimal n d (h ▸ List.mem_cons_self _ _)⟩

@[simp] theorem decimalInt_natCast (n : Nat) : decimalInt n = decimal n := by
  simp [decimalInt, show ¬(n : Int) < 0 by omega]

theorem quote_not_mem_decimal (n : Nat) : '"' ∉ decimal n :=
  fun h => absurd (isDigit_of_mem_decimal n _ h) (by decide)

theorem quote_not_mem_decimalInt (x : Int) : '"' ∉ decimalInt x := by
  unfold decimalInt
  split_ifs
  · exact List.not_mem_cons_of_ne_of_not_mem (by decide) (quote_not_mem_decimal _)
  · exact quote_not_mem_decimal _

/-- The digit loop over the digits of `n` computes `n` in `int64_t`. -/
theorem foldl_digitStep_decimal (n : Nat) : (decimal n).foldl digitStep 0 = wrapInt64 n := by
  induction n using Nat.strong_induction_on with
  | _ n ih =>
    have hd := (digitChar_spec (n % 10) (Nat.mod_lt _ (by omega))).2
    rw [decimal_eq, List.foldl_append, List.foldl_cons, List.foldl_nil]
    split_ifs with h10
    · simp only [List.foldl_nil, digitStep, hd]
      unfold wrapInt64
      omega
    · rw [ih (n / 10) (by omega)]
      simp only [digitStep, hd]
      unfold wrapInt64
      omega

theorem readDigits_append : ∀ {l : List Char} (v : Int), (∀ c ∈ l, c.isDigit = true) →
    ∀ rest, readDigits v (l ++ rest) = readDigits (l.foldl digitStep v) rest
  | [], _, _, _ => rfl
  | c :: l, v, h, rest => by
    simp only [List.cons_append, readDigits, h c (List.mem_cons_self _ _), if_true, List.foldl_cons]
    exact readDigits_append _ (fun c hc => h c (List.mem_cons_of_mem _ hc)) rest

/-- The digit loop reads the digits of `n` up to the first character that is no digit. -/
theorem readDigits_decimal (n : Nat) {c : Char} (hc : c.isDigit = false) (t : List Char) :
    readDigits 0 (decimal n ++ c :: t) = wrapInt64 n := by
  rw [readDigits_append 0 (isDigit_of_mem_decimal n), foldl_digitStep_decimal]
  simp [readDigits, hc]

theorem readInt_of_isDigit {d : Char} (hd : d.isDigit = true) (t : List Char) :
    readInt (d :: t) = readDigits 0 (d :: t) := by
  have hb : ¬(d = ' ' ∨ d = '\t') := by rintro (rfl | rfl) <;> exact absurd hd (by decide)
  have hm : d ≠ '-' := by rintro rfl; exact absurd hd (by decide)
  simp [readInt, skipBlanks, hb, hm]

theorem readInt_minus (t : List Char) : readInt ('-' :: t) = wrapInt64 (-readDigits 0 t) := by
  simp [readInt, skipBlanks]

/-- **`find_int` reads a written `int64_t` back**, as its `int64_t` value, before the `,` or
`}` that follows it. -/
theorem readInt_decimalInt (x : Int) {c : Char} (hc : c.isDigit = false) (t : List Char) :
    readInt (decimalInt x ++ c :: t) = wrapInt64 x := by
  unfold decimalInt
  split_ifs with hx
  · rw [List.cons_append, readInt_minus, readDigits_decimal _ hc]
    unfold wrapInt64
    omega
  · obtain ⟨d, ds, hds, hd⟩ := exists_decimal_eq_cons x.toNat
    rw [hds, List.cons_append, readInt_of_isDigit hd, ← List.cons_append, ← hds,
      readDigits_decimal _ hc, Int.toNat_of_nonneg (by omega)]

/-! ## Finding a key -/

/-- A key the search finds only at its own member: not empty, and free of `"`, `:` and `,`. -/
def KeyOk (k : String) : Prop :=
  k.toList ≠ [] ∧ '"' ∉ k.toList ∧ ':' ∉ k.toList ∧ ',' ∉ k.toList

instance (k : String) : Decidable (KeyOk k) := inferInstanceAs (Decidable (_ ∧ _))

theorem afterFirst_append_self {s : List Char} (hs : s ≠ []) (u : List Char) :
    afterFirst s (s ++ u) = some u := by
  obtain ⟨c, s', rfl⟩ := List.exists_cons_of_ne_nil hs
  simp [afterFirst, List.isPrefixOf_iff_prefix.2 (List.prefix_append _ _)]

theorem afterFirst_cons_of_not_prefix {s : List Char} {c : Char} {cs : List Char}
    (h : s.isPrefixOf (c :: cs) = false) : afterFirst s (c :: cs) = afterFirst s cs := by
  simp [afterFirst, h]

theorem searchKey_eq (k : String) : searchKey k = '"' :: (k.toList ++ '"' :: [':']) := rfl

/-- The search for `"key":` passes a character that is no quote. -/
theorem afterFirst_cons_skip {k : String} {c : Char} (hc : c ≠ '"') (t : List Char) :
    afterFirst (searchKey k) (c :: t) = afterFirst (searchKey k) t := by
  refine afterFirst_cons_of_not_prefix ?_
  rw [searchKey_eq, List.isPrefixOf_cons₂]
  simp [Ne.symm hc]

theorem afterFirst_append_skip {k : String} : ∀ {a : List Char}, '"' ∉ a → ∀ t,
    afterFirst (searchKey k) (a ++ t) = afterFirst (searchKey k) t
  | [], _, _ => rfl
  | c :: a, h, t => by
    rw [List.cons_append, afterFirst_cons_skip (fun hc => h (hc ▸ List.mem_cons_self _ _))]
    exact afterFirst_append_skip (fun h' => h (List.mem_cons_of_mem _ h')) t

/-- Between quote-free words, `k"…` begins `w"…` only when the words are equal. -/
theorem isPrefixOf_quoted {r t : List Char} : ∀ {k w : List Char}, '"' ∉ k → '"' ∉ w →
    (k ++ '"' :: r).isPrefixOf (w ++ '"' :: t) = (decide (k = w) && r.isPrefixOf t)
  | [], [], _, _ => by simp [List.isPrefixOf]
  | [], b :: w, _, hw => by
    have hb : b ≠ '"' := fun h => hw (h ▸ List.mem_cons_self _ _)
    simp [List.isPrefixOf, Ne.symm hb]
  | a :: k, [], hk, _ => by
    have ha : a ≠ '"' := fun h => hk (h ▸ List.mem_cons_self _ _)
    simp [List.isPrefixOf, ha]
  | a :: k, b :: w, hk, hw => by
    rw [List.cons_append, List.cons_append, List.isPrefixOf_cons₂,
      isPrefixOf_quoted (List.not_mem_of_not_mem_cons hk) (List.not_mem_of_not_mem_cons hw)]
    by_cases hab : a = b <;> simp [hab]

/-- The search for `"key":` passes a quoted word and the character after it, unless they spell
`"key":` itself. -/
theorem afterFirst_quoted {k : String} (hk : KeyOk k) {w : List Char} (hw : '"' ∉ w) {c : Char}
    (hc : c ∉ k.toList) (hne : ¬(w = k.toList ∧ c = ':')) (t : List Char) :
    afterFirst (searchKey k) ('"' :: w ++ '"' :: c :: t) = afterFirst (searchKey k) (c :: t) := by
  obtain ⟨a, k', hk'⟩ := List.exists_cons_of_ne_nil hk.1
  -- at the opening quote the words differ, or `:` does not follow
  have h₁ : (searchKey k).isPrefixOf ('"' :: (w ++ '"' :: c :: t)) = false := by
    rw [searchKey_eq, List.isPrefixOf_cons₂_self, isPrefixOf_quoted hk.2.1 hw, List.isPrefixOf_cons₂]
    by_cases hkw : k.toList = w
    · rw [decide_eq_true hkw, Bool.true_and]
      simp [Ne.symm fun h => hne ⟨hkw.symm, h⟩]
    · rw [decide_eq_false hkw, Bool.false_and]
  -- at the closing quote the key's first letter is not `c`
  have h₂ : (searchKey k).isPrefixOf ('"' :: c :: t) = false := by
    have hac : a ≠ c := fun h => hc (by rw [hk', h]; exact List.mem_cons_self _ _)
    rw [searchKey_eq, List.isPrefixOf_cons₂_self, hk', List.cons_append, List.isPrefixOf_cons₂]
    simp [hac]
  rw [List.cons_append, afterFirst_cons_of_not_prefix h₁, afterFirst_append_skip hw,
    afterFirst_cons_of_not_prefix h₂]

theorem afterFirst_field_self (k : String) (v t : List Char) :
    afterFirst (searchKey k) (field k v ++ t) = some (v ++ t) := by
  rw [show field k v ++ t = searchKey k ++ (v ++ t) by simp [field, searchKey],
    afterFirst_append_self (by simp [searchKey])]

/-- The search for `"key":` passes a member of another key. -/
theorem afterFirst_field_ne {k k' : String} (hk : KeyOk k) (hk' : '"' ∉ k'.toList) (hne : k' ≠ k)
    {v : List Char} (hv : '"' ∉ v) (t : List Char) :
    afterFirst (searchKey k) (field k' v ++ t) = afterFirst (searchKey k) t := by
  rw [show field k' v ++ t = '"' :: k'.toList ++ '"' :: ':' :: (v ++ t) by simp [field],
    afterFirst_quoted hk hk' hk.2.2.1 (fun h => hne (String.ext h.1)),
    afterFirst_cons_skip (by decide), afterFirst_append_skip hv]

@[simp] theorem fieldsText_cons (f : String × List Char) (fs : List (String × List Char)) :
    fieldsText (f :: fs) = ',' :: (field f.1 f.2 ++ fieldsText fs) := rfl

/-- **The search for `"key":` stops at the first member of that key**, just before the `,` or
the `}` that follows its value. -/
theorem afterFirst_fieldsText_some {k : String} (hk : KeyOk k) :
    ∀ {fs : List (String × List Char)} {v : List Char},
      (∀ f ∈ fs, '"' ∉ f.1.toList ∧ '"' ∉ f.2) → List.lookup k fs = some v →
      ∃ c t, (c = ',' ∨ c = '\x7d') ∧
        afterFirst (searchKey k) (fieldsText fs ++ ['\x7d']) = some (v ++ c :: t)
  | [], _, _, h => by simp at h
  | (k', v') :: fs, v, hq, h => by
    rw [fieldsText_cons, List.cons_append, afterFirst_cons_skip (by decide), List.append_assoc]
    by_cases hkk : k = k'
    · subst hkk
      rw [List.lookup_cons_self, Option.some.injEq] at h
      subst h
      rw [afterFirst_field_self]
      cases fs with
      | nil => exact ⟨'\x7d', [], .inr rfl, rfl⟩
      | cons f fs => exact ⟨',', field f.1 f.2 ++ (fieldsText fs ++ ['\x7d']), .inl rfl, by simp⟩
    · have h' : List.lookup k fs = some v := by
        rwa [List.lookup_cons, (beq_eq_false_iff_ne).2 hkk] at h
      have hf := hq _ (List.mem_cons_self _ _)
      rw [afterFirst_field_ne hk hf.1 (Ne.symm hkk) hf.2]
      exact afterFirst_fieldsText_some hk (fun f hf => hq f (List.mem_cons_of_mem _ hf)) h'

/-- Without a member of the key, the search reaches the end: `npos`. -/
theorem afterFirst_fieldsText_none {k : String} (hk : KeyOk k) :
    ∀ {fs : List (String × List Char)}, (∀ f ∈ fs, '"' ∉ f.1.toList ∧ '"' ∉ f.2) →
      List.lookup k fs = none → afterFirst (searchKey k) (fieldsText fs ++ ['\x7d']) = none
  | [], _, _ => by simp [afterFirst_cons_skip, afterFirst, searchKey]
  | (k', v') :: fs, hq, h => by
    have hkk : k ≠ k' := fun e => by rw [e, List.lookup_cons_self] at h; cases h
    have hf := hq _ (List.mem_cons_self _ _)
    rw [fieldsText_cons, List.cons_append, afterFirst_cons_skip (by decide), List.append_assoc,
      afterFirst_field_ne hk hf.1 (Ne.symm hkk) hf.2]
    exact afterFirst_fieldsText_none hk (fun f hf => hq f (List.mem_cons_of_mem _ hf))
      (by rwa [List.lookup_cons, (beq_eq_false_iff_ne).2 hkk] at h)

/-! ## The round trip -/

theorem jsonFields_quoteFree (cmd : OrderCommand) :
    ∀ f ∈ jsonFields cmd, '"' ∉ f.1.toList ∧ '"' ∉ f.2 := by
  intro f hf
  simp only [jsonFields, List.mem_append, List.mem_cons, List.mem_ite_nil_right,
    List.mem_singleton, List.not_mem_nil, or_false] at hf
  rcases hf with (((rfl | rfl | rfl | rfl | rfl | rfl | rfl | rfl | rfl | rfl) | ⟨-, rfl⟩) |
    ⟨-, rfl⟩) | ⟨-, rfl⟩ <;>
    exact ⟨by dsimp only; decide, by first | exact quote_not_mem_decimal _ |
      exact quote_not_mem_decimalInt _⟩

/-- Before the members, `to_json` writes `{"type":"order_command"`, which the search for any
other key passes. -/
theorem afterFirst_toJson {k : String} (hk : KeyOk k) (hkt : k ≠ "type") (cmd : OrderCommand) :
    afterFirst (searchKey k) (toJson cmd) =
      afterFirst (searchKey k) (fieldsText (jsonFields cmd) ++ ['\x7d']) := by
  obtain ⟨X, hX⟩ : ∃ X, fieldsText (jsonFields cmd) ++ ['\x7d'] = ',' :: X := ⟨_, rfl⟩
  have e : toJson cmd = '\x7b' :: ('"' :: "type".toList ++ '"' :: ':' ::
      ('"' :: "order_command".toList ++ '"' :: ',' :: X)) := by
    rw [toJson, show "\"order_command\"".toList = '"' :: "order_command".toList ++ ['"'] from rfl]
    simp [field, ← hX]
  rw [e, hX, afterFirst_cons_skip (by decide),
    afterFirst_quoted (w := "type".toList) hk (by decide) hk.2.2.1
      (fun h => hkt (String.ext h.1).symm),
    afterFirst_cons_skip (by decide),
    afterFirst_quoted (w := "order_command".toList) hk (by decide) hk.2.2.2
      (fun h => absurd h.2 (by decide))]

theorem findInt_toJson (cmd : OrderCommand) {k : String} (hk : KeyOk k) (hkt : k ≠ "type")
    {x : Int} (h : List.lookup k (jsonFields cmd) = some (decimalInt x)) :
    findInt (toJson cmd) k = wrapInt64 x := by
  obtain ⟨c, t, hc, he⟩ := afterFirst_fieldsText_some hk (jsonFields_quoteFree cmd) h
  simp only [findInt, afterFirst_toJson hk hkt, he]
  exact readInt_decimalInt x (by rcases hc with rfl | rfl <;> decide) t

theorem findInt_toJson_none (cmd : OrderCommand) {k : String} (hk : KeyOk k) (hkt : k ≠ "type")
    (h : List.lookup k (jsonFields cmd) = none) : findInt (toJson cmd) k = 0 := by
  simp only [findInt, afterFirst_toJson hk hkt, afterFirst_fieldsText_none hk
    (jsonFields_quoteFree cmd) h]

/-- A member holding a natural number below `2^63` (an enumeration's value) reads back as it is. -/
theorem findInt_toJson_nat (cmd : OrderCommand) {k : String} (hk : KeyOk k) (hkt : k ≠ "type")
    {n : Nat} (hn : n < 9223372036854775808) (h : List.lookup k (jsonFields cmd) = some (decimal n)) :
    findInt (toJson cmd) k = n := by
  rw [findInt_toJson cmd hk hkt (x := n) (by rw [decimalInt_natCast]; exact h),
    wrapInt64_of_mem (by unfold InInt64; omega)]

theorem uint64_ofNat_toNat (a : UInt64) : UInt64.ofNat a.toNat = a :=
  UInt64.toNat.inj (UInt64.toNat_ofNat_of_lt a.toNat_lt_size)

theorem toUInt32_ofNat_toNat (a : UInt32) : (UInt64.ofNat a.toNat).toUInt32 = a := by
  have h32 := a.toNat_lt_size
  apply UInt32.toNat.inj
  show (UInt32.ofNat (UInt64.ofNat a.toNat).toNat).toNat = a.toNat
  rw [UInt64.toNat_ofNat_of_lt (by unfold UInt32.size at h32; unfold UInt64.size; omega),
    UInt32.toNat_ofNat_of_lt h32]

/-- A `uint64_t` member reads back through `find_uint` as itself. -/
theorem findUInt_toJson (cmd : OrderCommand) {k : String} (hk : KeyOk k) (hkt : k ≠ "type")
    {a : UInt64} (h : List.lookup k (jsonFields cmd) = some (decimal a.toNat)) :
    findUInt (toJson cmd) k = a := by
  have hw : wrapInt64 a.toNat % 18446744073709551616 = a.toNat := by
    have := a.toNat_lt_size
    unfold wrapInt64 UInt64.size at *
    omega
  rw [findUInt, findInt_toJson cmd hk hkt (x := a.toNat) (by rw [decimalInt_natCast]; exact h),
    hw, Int.toNat_ofNat, uint64_ofNat_toNat]

/-- A `uint32_t` member reads back through `find_uint` and the narrowing cast as itself. -/
theorem findUInt_toJson_toUInt32 (cmd : OrderCommand) {k : String} (hk : KeyOk k)
    (hkt : k ≠ "type") {a : UInt32} (h : List.lookup k (jsonFields cmd) = some (decimal a.toNat)) :
    (findUInt (toJson cmd) k).toUInt32 = a := by
  have h32 := a.toNat_lt_size
  rw [findUInt_toJson cmd hk hkt (a := UInt64.ofNat a.toNat)
    (by rwa [UInt64.toNat_ofNat_of_lt (by unfold UInt32.size at h32; unfold UInt64.size; omega)]),
    toUInt32_ofNat_toNat]

/-- An `int64_t` member written only when it is not zero reads back either way. -/
theorem findInt_toJson_optional (cmd : OrderCommand) {k : String} (hk : KeyOk k)
    (hkt : k ≠ "type") {x : Int} (hx : InInt64 x)
    (h : List.lookup k (jsonFields cmd) = if x ≠ 0 then some (decimalInt x) else none) :
    findInt (toJson cmd) k = x := by
  by_cases h0 : x = 0
  · rw [findInt_toJson_none cmd hk hkt (by simpa [h0] using h), h0]
  · rw [findInt_toJson cmd hk hkt (by simpa [h0] using h), wrapInt64_of_mem hx]

/-- **Decoding undoes encoding.** For every command whose price, quantity, stop price and display
quantity are `int64_t` values (the other fields have their fixed-width types, and the
enumerations their declared values by construction), `parse_order_command(to_json(cmd))`
succeeds with `cmd` on every field the format carries: all but `recv_ts`. -/
theorem parse_toJson (cmd : OrderCommand) (hp : InInt64 cmd.priceTicks) (hq : InInt64 cmd.qty)
    (hs : InInt64 cmd.stopPrice) (hd : InInt64 cmd.displayQty) :
    parseOrderCommand (toJson cmd) = .ok (some { cmd with recvTs := 0 }) := by
  have htype : findInt (toJson cmd) "command_type" = cmd.type.code :=
    findInt_toJson_nat cmd (k := "command_type") (by decide) (by decide)
      (by have := cmd.type.code_le; omega) rfl
  have hside : findInt (toJson cmd) "side" = cmd.side.code :=
    findInt_toJson_nat cmd (k := "side") (by decide) (by decide)
      (by have := cmd.side.code_lt; omega) rfl
  have horder : findInt (toJson cmd) "order_type" = cmd.orderType.code :=
    findInt_toJson_nat cmd (k := "order_type") (by decide) (by decide)
      (by have := cmd.orderType.code_lt; omega) rfl
  have htif : findInt (toJson cmd) "tif" = cmd.tif.code :=
    findInt_toJson_nat cmd (k := "tif") (by decide) (by decide)
      (by have := cmd.tif.code_lt; omega) rfl
  have hid : findUInt (toJson cmd) "order_id" = cmd.orderId :=
    findUInt_toJson cmd (k := "order_id") (by decide) (by decide) rfl
  have hsym : (findUInt (toJson cmd) "symbol_id").toUInt32 = cmd.symbolId :=
    findUInt_toJson_toUInt32 cmd (k := "symbol_id") (by decide) (by decide) rfl
  have huser : (findUInt (toJson cmd) "user_id").toUInt32 = cmd.userId :=
    findUInt_toJson_toUInt32 cmd (k := "user_id") (by decide) (by decide) rfl
  have hflags : (findUInt (toJson cmd) "flags").toUInt32 = cmd.flags :=
    findUInt_toJson_toUInt32 cmd (k := "flags") (by decide) (by decide) rfl
  have hprice : findInt (toJson cmd) "price" = cmd.priceTicks := by
    rw [findInt_toJson cmd (k := "price") (by decide) (by decide) rfl, wrapInt64_of_mem hp]
  have hqty : findInt (toJson cmd) "qty" = cmd.qty := by
    rw [findInt_toJson cmd (k := "qty") (by decide) (by decide) rfl, wrapInt64_of_mem hq]
  have hstop : findInt (toJson cmd) "stop_price" = cmd.stopPrice :=
    findInt_toJson_optional cmd (k := "stop_price") (by decide) (by decide) hs
      (by unfold jsonFields; split_ifs <;> rfl)
  have hdisp : findInt (toJson cmd) "display_qty" = cmd.displayQty :=
    findInt_toJson_optional cmd (k := "display_qty") (by decide) (by decide) hd
      (by unfold jsonFields; split_ifs <;> rfl)
  have hexp : findUInt (toJson cmd) "expiry_ts" = cmd.expiryTs := by
    have hl : List.lookup "expiry_ts" (jsonFields cmd) =
        if cmd.expiryTs ≠ 0 then some (decimal cmd.expiryTs.toNat) else none := by
      unfold jsonFields
      split_ifs <;> rfl
    by_cases h0 : cmd.expiryTs = 0
    · rw [findUInt, findInt_toJson_none cmd (k := "expiry_ts") (by decide) (by decide)
        (by simp [hl, h0]), h0]
      rfl
    · exact findUInt_toJson cmd (k := "expiry_ts") (by decide) (by decide) (by simp [hl, h0])
  have hrange : ¬((cmd.type.code : Int) < 0 ∨ (cmd.type.code : Int) > 2) := by
    have := cmd.type.code_le
    omega
  simp only [parseOrderCommand, htype, hside, horder, htif, hid, hsym, huser, hflags, hprice, hqty,
    hstop, hdisp, hexp, hrange, if_false, CommandType.ofCode?_code, Side.ofCode?_code,
    OrderType.ofCode?_code, TimeInForce.ofCode?_code, Option.bind_eq_bind, Option.some_bind]
  rfl

/-- The extremes of every field: `INT64_MIN` and `INT64_MAX`, the largest `uint64_t` order id and
`uint32_t` symbol and flags, a stop price of `-1` and an expiry of `2^63`. -/
theorem parse_toJson_witness :
    let cmd : OrderCommand :=
      { type := .modifyOrder, recvTs := 5, orderId := 18446744073709551615,
        symbolId := 4294967295, userId := 7, priceTicks := -9223372036854775808,
        qty := 9223372036854775807, side := .ask, orderType := .stopMarket, tif := .gtd,
        flags := 4294967295, stopPrice := -1, displayQty := 0, expiryTs := 9223372036854775808 }
    InInt64 cmd.priceTicks ∧ InInt64 cmd.qty ∧ InInt64 cmd.stopPrice ∧ InInt64 cmd.displayQty ∧
      parseOrderCommand (toJson cmd) = .ok (some { cmd with recvTs := 0 }) := by
  intro cmd
  exact ⟨by decide, by decide, by decide, by decide,
    parse_toJson cmd (by decide) (by decide) (by decide) (by decide)⟩

/-! ## The outgoing events -/

/-- The text the `to_json` of an event writes: `{"type":"w"`, then its members, then `}`. -/
def object (w : String) (fs : List (String × List Char)) : List Char :=
  '\x7b' :: field "type" ('"' :: w.toList ++ ['"']) ++ fieldsText fs ++ ['\x7d']

/-- The members `to_json(const TradeEvent&)` (json_serializer.h:49–60) writes after
`"type":"trade"`. -/
def tradeFields (t : TradeEvent) : List (String × List Char) :=
  [("ts", decimal t.ts.toNat), ("taker_id", decimal t.takerId.toNat),
    ("maker_id", decimal t.makerId.toNat), ("symbol_id", decimal t.symbolId.toNat),
    ("price", decimalInt t.priceTicks), ("qty", decimalInt t.qty)]

/-- The members `to_json(const BookUpdate&)` (json_serializer.h:63–74) writes after
`"type":"book_update"`. -/
def bookUpdateFields (u : BookUpdate) : List (String × List Char) :=
  [("ts", decimal u.ts.toNat), ("symbol_id", decimal u.symbolId.toNat),
    ("best_bid", decimalInt u.bestBid), ("best_ask", decimalInt u.bestAsk),
    ("bid_qty", decimalInt u.bidQty), ("ask_qty", decimalInt u.askQty)]

/-- `json::to_json(const TradeEvent&)`, which `NetworkFeedHandler::broadcast_trade` sends. -/
def tradeToJson (t : TradeEvent) : List Char := object "trade" (tradeFields t)

/-- `json::to_json(const BookUpdate&)`, which `NetworkFeedHandler::broadcast_book_update`
sends. -/
def bookUpdateToJson (u : BookUpdate) : List Char := object "book_update" (bookUpdateFields u)

/-- The search for any other key passes `{"type":"w"`. -/
theorem afterFirst_object {k : String} (hk : KeyOk k) (hkt : k ≠ "type") {w : String}
    (hw : '"' ∉ w.toList) {fs : List (String × List Char)} (hfs : fs ≠ []) :
    afterFirst (searchKey k) (object w fs) = afterFirst (searchKey k) (fieldsText fs ++ ['\x7d']) := by
  obtain ⟨X, hX⟩ : ∃ X, fieldsText fs ++ ['\x7d'] = ',' :: X := by
    obtain ⟨f, fs, rfl⟩ := List.exists_cons_of_ne_nil hfs
    exact ⟨_, rfl⟩
  have e : object w fs = '\x7b' :: ('"' :: "type".toList ++ '"' :: ':' ::
      ('"' :: w.toList ++ '"' :: ',' :: X)) := by
    simp [object, field, ← hX]
  rw [e, hX, afterFirst_cons_skip (by decide),
    afterFirst_quoted (w := "type".toList) hk (by decide) hk.2.2.1
      (fun h => hkt (String.ext h.1).symm),
    afterFirst_cons_skip (by decide),
    afterFirst_quoted hk hw hk.2.2.2 (fun h => absurd h.2 (by decide))]

theorem findInt_object {k : String} (hk : KeyOk k) (hkt : k ≠ "type") {w : String}
    (hw : '"' ∉ w.toList) {fs : List (String × List Char)}
    (hq : ∀ f ∈ fs, '"' ∉ f.1.toList ∧ '"' ∉ f.2) {x : Int}
    (h : List.lookup k fs = some (decimalInt x)) : findInt (object w fs) k = wrapInt64 x := by
  obtain ⟨c, t, hc, he⟩ := afterFirst_fieldsText_some hk hq h
  have hfs : fs ≠ [] := by rintro rfl; simp at h
  simp only [findInt, afterFirst_object hk hkt hw hfs, he]
  exact readInt_decimalInt x (by rcases hc with rfl | rfl <;> decide) t

theorem findUInt_object {k : String} (hk : KeyOk k) (hkt : k ≠ "type") {w : String}
    (hw : '"' ∉ w.toList) {fs : List (String × List Char)}
    (hq : ∀ f ∈ fs, '"' ∉ f.1.toList ∧ '"' ∉ f.2) {a : UInt64}
    (h : List.lookup k fs = some (decimal a.toNat)) : findUInt (object w fs) k = a := by
  have hwrap : wrapInt64 a.toNat % 18446744073709551616 = a.toNat := by
    have := a.toNat_lt_size
    unfold wrapInt64 UInt64.size at *
    omega
  rw [findUInt, findInt_object hk hkt hw hq (x := a.toNat) (by rw [decimalInt_natCast]; exact h),
    hwrap, Int.toNat_ofNat, uint64_ofNat_toNat]

theorem findUInt_object_toUInt32 {k : String} (hk : KeyOk k) (hkt : k ≠ "type") {w : String}
    (hw : '"' ∉ w.toList) {fs : List (String × List Char)}
    (hq : ∀ f ∈ fs, '"' ∉ f.1.toList ∧ '"' ∉ f.2) {a : UInt32}
    (h : List.lookup k fs = some (decimal a.toNat)) : (findUInt (object w fs) k).toUInt32 = a := by
  have h32 := a.toNat_lt_size
  rw [findUInt_object hk hkt hw hq (a := UInt64.ofNat a.toNat)
    (by rwa [UInt64.toNat_ofNat_of_lt (by unfold UInt32.size at h32; unfold UInt64.size; omega)]),
    toUInt32_ofNat_toNat]

theorem quoteFree_fields {fs : List (String × List Char)}
    (h : ∀ f ∈ fs, '"' ∉ f.1.toList ∧ ((∃ n, f.2 = decimal n) ∨ ∃ x, f.2 = decimalInt x)) :
    ∀ f ∈ fs, '"' ∉ f.1.toList ∧ '"' ∉ f.2 := fun f hf => by
  obtain ⟨hk, ⟨n, hn⟩ | ⟨x, hx⟩⟩ := h f hf
  · exact ⟨hk, hn ▸ quote_not_mem_decimal n⟩
  · exact ⟨hk, hx ▸ quote_not_mem_decimalInt x⟩

theorem tradeFields_quoteFree (t : TradeEvent) :
    ∀ f ∈ tradeFields t, '"' ∉ f.1.toList ∧ '"' ∉ f.2 :=
  quoteFree_fields fun f hf => by
    simp only [tradeFields, List.mem_cons, List.not_mem_nil, or_false] at hf
    rcases hf with rfl | rfl | rfl | rfl | rfl | rfl <;>
      first
        | exact ⟨by dsimp only; decide, .inl ⟨_, rfl⟩⟩
        | exact ⟨by dsimp only; decide, .inr ⟨_, rfl⟩⟩

theorem bookUpdateFields_quoteFree (u : BookUpdate) :
    ∀ f ∈ bookUpdateFields u, '"' ∉ f.1.toList ∧ '"' ∉ f.2 :=
  quoteFree_fields fun f hf => by
    simp only [bookUpdateFields, List.mem_cons, List.not_mem_nil, or_false] at hf
    rcases hf with rfl | rfl | rfl | rfl | rfl | rfl <;>
      first
        | exact ⟨by dsimp only; decide, .inl ⟨_, rfl⟩⟩
        | exact ⟨by dsimp only; decide, .inr ⟨_, rfl⟩⟩

/-- **Every event the network feed broadcasts reads back** through the codec's own `find_int`
and `find_uint`: each member of `to_json(trade)` and of `to_json(update)` gives back its field,
the unsigned ones exactly and the signed ones as their `int64_t` value. -/
theorem events_toJson_readback :
    (∀ t : TradeEvent,
      findUInt (tradeToJson t) "ts" = t.ts ∧ findUInt (tradeToJson t) "taker_id" = t.takerId ∧
        findUInt (tradeToJson t) "maker_id" = t.makerId ∧
        (findUInt (tradeToJson t) "symbol_id").toUInt32 = t.symbolId ∧
        findInt (tradeToJson t) "price" = wrapInt64 t.priceTicks ∧
        findInt (tradeToJson t) "qty" = wrapInt64 t.qty) ∧
    ∀ u : BookUpdate,
      findUInt (bookUpdateToJson u) "ts" = u.ts ∧
        (findUInt (bookUpdateToJson u) "symbol_id").toUInt32 = u.symbolId ∧
        findInt (bookUpdateToJson u) "best_bid" = wrapInt64 u.bestBid ∧
        findInt (bookUpdateToJson u) "best_ask" = wrapInt64 u.bestAsk ∧
        findInt (bookUpdateToJson u) "bid_qty" = wrapInt64 u.bidQty ∧
        findInt (bookUpdateToJson u) "ask_qty" = wrapInt64 u.askQty :=
  ⟨fun t => ⟨findUInt_object (k := "ts") (by decide) (by decide) (by decide) (tradeFields_quoteFree t) rfl,
    findUInt_object (k := "taker_id") (by decide) (by decide) (by decide) (tradeFields_quoteFree t) rfl,
    findUInt_object (k := "maker_id") (by decide) (by decide) (by decide) (tradeFields_quoteFree t) rfl,
    findUInt_object_toUInt32 (k := "symbol_id") (by decide) (by decide) (by decide)
      (tradeFields_quoteFree t) rfl,
    findInt_object (k := "price") (by decide) (by decide) (by decide) (tradeFields_quoteFree t) rfl,
    findInt_object (k := "qty") (by decide) (by decide) (by decide) (tradeFields_quoteFree t) rfl⟩,
  fun u => ⟨findUInt_object (k := "ts") (by decide) (by decide) (by decide)
      (bookUpdateFields_quoteFree u) rfl,
    findUInt_object_toUInt32 (k := "symbol_id") (by decide) (by decide) (by decide)
      (bookUpdateFields_quoteFree u) rfl,
    findInt_object (k := "best_bid") (by decide) (by decide) (by decide)
      (bookUpdateFields_quoteFree u) rfl,
    findInt_object (k := "best_ask") (by decide) (by decide) (by decide)
      (bookUpdateFields_quoteFree u) rfl,
    findInt_object (k := "bid_qty") (by decide) (by decide) (by decide)
      (bookUpdateFields_quoteFree u) rfl,
    findInt_object (k := "ask_qty") (by decide) (by decide) (by decide)
      (bookUpdateFields_quoteFree u) rfl⟩⟩

end Json

end HyperliquidEngine
