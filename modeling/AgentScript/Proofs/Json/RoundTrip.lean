import AgentScript.Proofs.Json.Number
import AgentScript.Proofs.Json.Quoted

/-! Data that were written are read back. -/
namespace AgentScript.Json

open Number Text

/-- Data that can be read back: no integer has too many digits, every number reads back from its
exact text, and no key of an object occurs twice. -/
inductive Legible : Json → Prop
  | null : Legible .null
  | bool (b : Bool) : Legible (.bool b)
  | int {n : Int} (h : digitCount n.natAbs ≤ digitLimit) : Legible (.int n)
  | real {x : Float} (h : ReadsBack x) : Legible (.real x)
  | str (s : String) : Legible (.str s)
  | arr {items : List Json} (h : ∀ v ∈ items, Legible v) : Legible (.arr items)
  | obj {fields : List (String × Json)} (hk : (fields.map (·.1)).Nodup)
    (h : ∀ f ∈ fields, Legible f.2) : Legible (.obj fields)

/-- What stands after a datum: nothing, a comma or a line break. -/
def Halts (rest : List Char) : Prop := ∀ c ∈ rest.head?, c = ',' ∨ c = '\n'

variable {rest : List Char}

theorem Halts.ends (h : Halts rest) : Numeral.Ends rest := by
  intro c hc
  rcases h c hc with rfl | rfl <;> decide

/-! ## Blanks -/

theorem skip_opening {c : Char} (h : isSpace c = false) (cs : List Char) :
    skip (c :: cs) = c :: cs :=
  List.dropWhile_cons_of_neg (by simp [h])

theorem skip_lineBreak (depth : Nat) (cs : List Char) : skip (lineBreak depth ++ cs) = skip cs := by
  refine List.dropWhile_append_of_pos fun c hc => ?_
  rcases List.mem_cons.mp hc with rfl | hc
  · decide
  · rw [List.eq_of_mem_replicate hc]
    decide

theorem halts_lineBreak (depth : Nat) (cs : List Char) : Halts (lineBreak depth ++ cs) :=
  fun _ hc => .inr (Option.some.inj hc).symm

theorem halts_comma (cs : List Char) : Halts (',' :: cs) :=
  fun _ hc => .inl (Option.some.inj hc).symm

/-! ## Data -/

/-- What begins a datum: no blank, no bracket that closes and no byte order mark. -/
def Opens (c : Char) : Prop := isSpace c = false ∧ c ≠ ']' ∧ c ≠ '\ufeff'

instance (c : Char) : Decidable (Opens c) := inferInstanceAs (Decidable (_ ∧ _ ∧ _))

/-- A datum that was written at a depth can be read, up to what may stand after it. -/
structure Reads (depth : Nat) (v : Json) : Prop where
  opens : ∃ c r, indentedChars depth v = c :: r ∧ Opens c
  value : ∀ rest fuel, Halts rest → 2 * (indentedChars depth v).length ≤ fuel →
    value fuel (indentedChars depth v ++ rest) = .ok (v, rest)

theorem Reads.skip {depth : Nat} {v : Json} (h : v.Reads depth) (cs : List Char) :
    skip (indentedChars depth v ++ cs) = indentedChars depth v ++ cs := by
  obtain ⟨c, r, hc, ho⟩ := h.opens
  rw [hc]
  exact skip_opening ho.1 _

attribute [local simp] indentedChars

theorem items_reads (rest : List Char) {depth : Nat} (outer : Nat) {v : Json} {vs : List Json}
    (h : ∀ w ∈ v :: vs, w.Reads depth) (fuel : Nat) (out : List Json)
    (hf : 2 * ((indentedChars depth v).length + (indentedItems depth vs).length) < fuel) :
    items fuel
      (indentedChars depth v ++ (indentedItems depth vs ++ (lineBreak outer ++ ']' :: rest))) out =
        .ok (.arr (out.reverse ++ v :: vs), rest) := by
  induction vs generalizing v fuel out with
  | nil =>
    obtain ⟨fuel, rfl⟩ : ∃ k, fuel = k + 1 := ⟨fuel - 1, by omega⟩
    have hv := (h v (by simp)).value (lineBreak outer ++ ']' :: rest) fuel
      (halts_lineBreak _ _) (by omega)
    have hs : Json.skip (lineBreak outer ++ ']' :: rest) = ']' :: rest := by
      rw [skip_lineBreak, skip_opening (by decide)]
    simp only [indentedItems, List.nil_append, items, hv, bind, Except.bind, hs]
    rw [List.reverse_cons]
  | cons w ws ih =>
    obtain ⟨fuel, rfl⟩ : ∃ k, fuel = k + 1 := ⟨fuel - 1, by omega⟩
    simp only [indentedItems, List.length_append, List.length_cons] at hf
    have hv := (h v (by simp)).value (',' :: (lineBreak depth ++ (indentedChars depth w ++
      (indentedItems depth ws ++ (lineBreak outer ++ ']' :: rest))))) fuel (halts_comma _) (by omega)
    have ih := ih (fun w hw => h w (List.mem_cons_of_mem v hw)) fuel (v :: out) (by omega)
    simp only [indentedItems, List.append_assoc, List.cons_append, items, hv, bind, Except.bind,
      skip_opening (show isSpace ',' = false by decide), skip_lineBreak, (h w (by simp)).skip, ih,
      List.reverse_cons, List.nil_append]

theorem setField_new {key : String} {v : Json} {out : List (String × Json)}
    (h : key ∉ out.map (·.1)) : setField key v out = out ++ [(key, v)] := by
  induction out with
  | nil => rfl
  | cons f fs ih =>
    rw [List.map_cons, List.mem_cons, not_or] at h
    rw [setField, if_neg (Ne.symm h.1), ih h.2, List.cons_append]

theorem key_notMem_of_nodup {out fs : List (String × Json)} {key : String} {v : Json}
    (h : ((out ++ (key, v) :: fs).map (·.1)).Nodup) : key ∉ out.map (·.1) := by
  rw [List.map_append, List.map_cons] at h
  exact fun hm => (List.nodup_append.mp h).2.2 key hm key (by simp) rfl

section Members

variable {depth : Nat} {v : Json} (h : v.Reads depth) (key : String) {fuel : Nat}
  (hf : 2 * (indentedChars depth v).length ≤ fuel) {cs rest : List Char} (hc : Halts cs)
  (out : List (String × Json))
include h hf hc

/-- The last member of an object is read up to the closing brace. -/
theorem fields_last (hs : skip cs = '\x7d' :: rest) :
    fields (fuel + 1) (stringChars key ++ ':' :: ' ' :: (indentedChars depth v ++ cs)) out =
      .ok (.obj (setField key v out), rest) := by
  have hblank : skip (' ' :: (indentedChars depth v ++ cs)) = indentedChars depth v ++ cs :=
    h.skip cs
  rw [stringChars_append, fields, if_neg (by simp)]
  simp only [stringBody_stringRest, bind, Except.bind,
    skip_opening (show isSpace ':' = false by decide), hblank, h.value cs fuel hc hf,
    String.ofList_toList, hs]

/-- Any other member is read up to a comma, and the rest after it. -/
theorem fields_more (hs : skip cs = ',' :: rest) :
    fields (fuel + 1) (stringChars key ++ ':' :: ' ' :: (indentedChars depth v ++ cs)) out =
      fields fuel (skip rest) (setField key v out) := by
  have hblank : skip (' ' :: (indentedChars depth v ++ cs)) = indentedChars depth v ++ cs :=
    h.skip cs
  rw [stringChars_append, fields, if_neg (by simp)]
  simp only [stringBody_stringRest, bind, Except.bind,
    skip_opening (show isSpace ':' = false by decide), hblank, h.value cs fuel hc hf,
    String.ofList_toList, hs]

end Members

theorem fields_reads (rest : List Char) {depth : Nat} (outer : Nat) {key : String} {v : Json}
    {fs : List (String × Json)} (h : ∀ f ∈ (key, v) :: fs, f.2.Reads depth) (fuel : Nat)
    (out : List (String × Json)) (hk : ((out ++ (key, v) :: fs).map (·.1)).Nodup)
    (hf : 2 * ((indentedChars depth v).length + (indentedFields depth fs).length) < fuel) :
    fields fuel (stringChars key ++ ':' :: ' ' :: (indentedChars depth v ++
      (indentedFields depth fs ++ (lineBreak outer ++ '\x7d' :: rest)))) out =
        .ok (.obj (out ++ (key, v) :: fs), rest) := by
  induction fs generalizing key v fuel out with
  | nil =>
    obtain ⟨fuel, rfl⟩ : ∃ k, fuel = k + 1 := ⟨fuel - 1, by omega⟩
    have hv : v.Reads depth := h (key, v) (by simp)
    have hnew := setField_new (v := v) (key_notMem_of_nodup hk)
    have hs : Json.skip (lineBreak outer ++ '\x7d' :: rest) = '\x7d' :: rest := by
      rw [skip_lineBreak, skip_opening (by decide)]
    rw [indentedFields, List.nil_append,
      fields_last hv key (by omega) (halts_lineBreak _ _) out hs, hnew]
  | cons g gs ih =>
    obtain ⟨fuel, rfl⟩ : ∃ k, fuel = k + 1 := ⟨fuel - 1, by omega⟩
    obtain ⟨key', w⟩ := g
    have hv : v.Reads depth := h (key, v) (by simp)
    have hnew := setField_new (v := v) (key_notMem_of_nodup hk)
    have hstring : ∀ cs, skip (stringChars key' ++ cs) = stringChars key' ++ cs := fun cs => by
      rw [stringChars_append, skip_opening (by decide)]
    simp only [indentedFields, List.length_append, List.length_cons] at hf
    have ih := ih (fun f hf => h f (List.mem_cons_of_mem _ hf)) fuel (out ++ [(key, v)])
      (by rwa [List.append_assoc, List.singleton_append]) (by omega)
    simp only [indentedFields, List.append_assoc, List.cons_append, List.nil_append]
    rw [fields_more hv key (by omega) (halts_comma _) out (skip_opening (by decide) _),
      skip_lineBreak, hstring, hnew, ih, List.append_assoc, List.singleton_append]

theorem word?_digit {c : Char} (h : isDigit c) (r : List Char) : word? (c :: r) = none := by
  have hne : ∀ d, ¬ isDigit d → c ≠ d := fun d hd he => hd (he ▸ h)
  simp [word?, words, hne 'n' (by decide), hne 't' (by decide), hne 'f' (by decide),
    hne 'N' (by decide), hne 'I' (by decide), hne '-' (by decide)]

theorem word?_minus {c : Char} (h : isDigit c) (r : List Char) : word? ('-' :: c :: r) = none := by
  have hne : c ≠ 'I' := by
    rintro rfl
    exact absurd h (by decide)
  simp [word?, words, hne]

/-- A numeral with its sign is read as a number. -/
theorem value_numeral (fuel : Nat) (minus : Bool) (n : Numeral) :
    value (fuel + 1) (signChars minus ++ n.chars ++ rest) =
      number (signChars minus ++ n.chars ++ rest) minus (n.chars ++ rest) := by
  obtain ⟨c, r, hc, hd⟩ := n.exists_chars
  have hne : ∀ d, ¬ isDigit d → c ≠ d := fun d hd' he => hd' (he ▸ hd)
  cases minus with
  | false =>
    simp only [signChars, Bool.false_eq_true, if_false, List.nil_append, hc, List.cons_append]
    rw [value, if_neg (hne _ (by decide)), if_neg (hne _ (by decide)), if_neg (hne _ (by decide)),
      word?_digit hd]
    exact if_neg (hne _ (by decide))
  | true =>
    simp only [signChars, if_true, hc, List.cons_append, List.nil_append]
    rw [value, if_neg (by decide), if_neg (by decide), if_neg (by decide), word?_minus hd]
    exact if_pos rfl

theorem int_toList (n : Int) :
    (toString n).toList = signChars (n < 0) ++ (Numeral.ofNat n.natAbs).chars := by
  have digits : ∀ k : Nat, (toString k).toList = (Numeral.ofNat k).chars := fun k => by
    rw [Nat.toString_eq_ofList_toDigits, String.toList_ofList]
    exact (List.append_nil _).symm
  cases n with
  | ofNat k => exact digits k
  | negSucc k =>
    change ("-" ++ toString (k + 1)).toList = _
    rw [String.toList_append, digits, decide_eq_true (Int.negSucc_lt_zero k)]
    rfl

theorem numeral_opens (minus : Bool) (n : Numeral) :
    ∃ c r, signChars minus ++ n.chars = c :: r ∧ Opens c := by
  obtain ⟨c, r, hc, hd⟩ := n.exists_chars
  have hne : ∀ d, ¬ isDigit d → c ≠ d := fun d hd' he => hd' (he ▸ hd)
  cases minus with
  | false =>
    refine ⟨c, r, hc, ?_, hne _ (by decide), hne _ (by decide)⟩
    simp [isSpace, hne ' ' (by decide), hne '\t' (by decide), hne '\n' (by decide),
      hne '\r' (by decide)]
  | true => exact ⟨'-', _, rfl, by decide⟩

theorem reads_word {v : Json} (w : List Char) (depth : Nat) (hw : indentedChars depth v = w)
    (ho : ∃ c r, w = c :: r ∧ Opens c ∧ c ≠ quoteMark ∧ c ≠ '\x7b' ∧ c ≠ '[')
    (h : ∀ rest, word? (w ++ rest) = some (v, rest)) : v.Reads depth := by
  obtain ⟨c, r, rfl, ho, hq, hbrace, hbracket⟩ := ho
  refine ⟨⟨c, r, hw, ho⟩, fun rest fuel _ hf => ?_⟩
  rw [hw] at hf ⊢
  obtain ⟨fuel, rfl⟩ : ∃ k, fuel = k + 1 := ⟨fuel - 1, by simp at hf; omega⟩
  have h := h rest
  rw [List.cons_append] at h ⊢
  rw [value, if_neg hq, if_neg hbrace, if_neg hbracket, h]

theorem reads_null (depth : Nat) : Reads depth .null :=
  reads_word "null".toList depth (by rw [indentedChars]) ⟨'n', _, rfl, by decide⟩ fun _ => rfl

theorem reads_bool (depth : Nat) (b : Bool) : Reads depth (.bool b) := by
  cases b with
  | false =>
    exact reads_word "false".toList depth (by rw [indentedChars]; rfl) ⟨'f', _, rfl, by decide⟩
      fun _ => rfl
  | true =>
    exact reads_word "true".toList depth (by rw [indentedChars]; rfl) ⟨'t', _, rfl, by decide⟩
      fun _ => rfl

/-- A numeral with its sign is read as whatever it is read as without. -/
theorem reads_numeral {v : Json} (depth : Nat) (minus : Bool) (n : Numeral)
    (hv : indentedChars depth v = signChars minus ++ n.chars)
    (h : ∀ start rest, Numeral.Ends rest → number start minus (n.chars ++ rest) = .ok (v, rest)) :
    v.Reads depth := by
  obtain ⟨c, r, hc, ho⟩ := numeral_opens minus n
  refine ⟨⟨c, r, hv.trans hc, ho⟩, fun rest fuel hr hf => ?_⟩
  have hpos : 0 < (indentedChars depth v).length := by
    rw [hv, hc]
    exact Nat.succ_pos _
  obtain ⟨fuel, rfl⟩ : ∃ k, fuel = k + 1 := ⟨fuel - 1, by omega⟩
  rw [hv, value_numeral, h _ rest hr.ends]

theorem reads_int (depth : Nat) {n : Int} (h : digitCount n.natAbs ≤ digitLimit) :
    Reads depth (.int n) := by
  refine reads_numeral depth (n < 0) (.ofNat n.natAbs) (by rw [indentedChars, int_toList])
    fun start rest hr => ?_
  have hn : (if decide (n < 0) then -(n.natAbs : Int) else n.natAbs) = n := by
    split
    · next hneg =>
      have := of_decide_eq_true hneg
      omega
    · next hneg =>
      have := of_decide_eq_false (Bool.not_eq_true _ ▸ hneg)
      omega
  rw [number_nat start _ h hr, hn]

theorem reads_real (depth : Nat) {x : Float} (h : ReadsBack x) : Reads depth (.real x) := by
  have hchars : indentedChars depth (.real x) = numberChars x := by rw [indentedChars]
  unfold numberChars at hchars
  split at hchars
  · next hn =>
    have hx : x = 0.0 / 0.0 := eq_of_isNaN hn (by decide +kernel)
    exact reads_word "NaN".toList depth hchars ⟨'N', _, rfl, by decide⟩ fun _ => by rw [hx]; rfl
  next hn =>
  rw [Bool.not_eq_true] at hn
  split at hchars
  · next hi =>
    have hx := h.eq_infinity hi
    cases hs : negative x with
    | false =>
      rw [hs] at hx hchars
      exact reads_word "Infinity".toList depth hchars ⟨'I', _, rfl, by decide⟩ fun _ => by
        rw [hx]
        rfl
    | true =>
      rw [hs] at hx hchars
      have he : signed true (1.0 / 0.0) = -1.0 / 0.0 := by decide +kernel
      exact reads_word "-Infinity".toList depth hchars ⟨'-', _, rfl, by decide⟩ fun _ => by
        rw [hx, he]
        rfl
  · next hi =>
    rw [Bool.not_eq_true] at hi
    obtain ⟨n, hr, ht, hx⟩ := h.exists_numeral hn hi
    refine reads_numeral depth (negative x) n (hchars.trans ht) fun start rest hrest => ?_
    rw [number_real start _ hr hrest, hx]

theorem reads_str (depth : Nat) (s : String) : Reads depth (.str s) := by
  have hchars : ∀ rest, indentedChars depth (.str s) ++ rest = quoteMark :: stringRest s rest := by
    intro rest
    rw [indentedChars, stringChars_append]
  refine ⟨⟨quoteMark, _, by rw [← hchars [], List.append_nil], by decide⟩,
    fun rest fuel _ hf => ?_⟩
  have hpos : 0 < (indentedChars depth (.str s)).length := by
    rw [indentedChars]
    exact Nat.succ_pos _
  obtain ⟨fuel, rfl⟩ : ∃ k, fuel = k + 1 := ⟨fuel - 1, by omega⟩
  rw [hchars, value, if_pos rfl, stringBody_stringRest]
  simp only [bind, Except.bind, String.ofList_toList]
  rfl

theorem reads_arr (depth : Nat) {list : List Json} (h : ∀ v ∈ list, ∀ d, v.Reads d) :
    Reads depth (.arr list) := by
  cases list with
  | nil =>
    have hchars : indentedChars depth (.arr []) = ['[', ']'] := by rw [indentedChars]; rfl
    refine ⟨⟨'[', _, hchars, by decide⟩, fun rest fuel _ hf => ?_⟩
    rw [hchars] at hf ⊢
    obtain ⟨fuel, rfl⟩ : ∃ k, fuel = k + 1 := ⟨fuel - 1, by simp at hf; omega⟩
    rw [List.cons_append, value, if_neg (by decide), if_neg (by decide), if_pos rfl]
    rfl
  | cons v vs =>
    have hread : ∀ w ∈ v :: vs, w.Reads (depth + 1) := fun w hw => h w hw (depth + 1)
    refine ⟨⟨'[', _, by rw [indentedChars]; rfl, by decide⟩, fun rest fuel _ hf => ?_⟩
    rw [indentedChars] at hf ⊢
    simp only [List.length_append, List.length_cons, List.cons_append] at hf
    obtain ⟨fuel, rfl⟩ : ∃ k, fuel = k + 1 := ⟨fuel - 1, by omega⟩
    have hitems := items_reads rest depth hread fuel [] (by omega)
    have hskip := (hread v (by simp)).skip
      (indentedItems (depth + 1) vs ++ (lineBreak depth ++ ']' :: rest))
    obtain ⟨c, r, hc, -, hb, -⟩ := (hread v (by simp)).opens
    simp only [List.append_assoc, List.cons_append, List.nil_append]
    rw [value, if_neg (by decide), if_neg (by decide), if_pos rfl, skip_lineBreak, hskip]
    split
    · next he =>
      rw [hc] at he
      exact absurd (List.cons.inj he).1 hb
    · exact hitems

theorem reads_obj (depth : Nat) {list : List (String × Json)} (hk : (list.map (·.1)).Nodup)
    (h : ∀ f ∈ list, ∀ d, f.2.Reads d) : Reads depth (.obj list) := by
  cases list with
  | nil =>
    have hchars : indentedChars depth (.obj []) = ['\x7b', '\x7d'] := by rw [indentedChars]; rfl
    refine ⟨⟨'\x7b', _, hchars, by decide⟩, fun rest fuel _ hf => ?_⟩
    rw [hchars] at hf ⊢
    obtain ⟨fuel, rfl⟩ : ∃ k, fuel = k + 1 := ⟨fuel - 1, by simp at hf; omega⟩
    rw [List.cons_append, value, if_neg (by decide), if_pos rfl]
    rfl
  | cons f fs =>
    obtain ⟨key, v⟩ := f
    have hread : ∀ f ∈ (key, v) :: fs, f.2.Reads (depth + 1) := fun f hf => h f hf (depth + 1)
    refine ⟨⟨'\x7b', _, by rw [indentedChars]; rfl, by decide⟩, fun rest fuel _ hf => ?_⟩
    rw [indentedChars] at hf ⊢
    simp only [List.length_append, List.length_cons, List.cons_append] at hf
    obtain ⟨fuel, rfl⟩ : ∃ k, fuel = k + 1 := ⟨fuel - 1, by omega⟩
    have hfields := fields_reads rest depth hread fuel [] hk (by omega)
    simp only [List.append_assoc, List.cons_append, List.nil_append]
    rw [value, if_neg (by decide), if_pos rfl, skip_lineBreak, stringChars_append,
      skip_opening (by decide)]
    rw [stringChars_append] at hfields
    exact hfields

theorem Legible.reads {v : Json} (h : v.Legible) (depth : Nat) : v.Reads depth := by
  induction h generalizing depth with
  | null => exact reads_null depth
  | bool b => exact reads_bool depth b
  | int h => exact reads_int depth h
  | real h => exact reads_real depth h
  | str s => exact reads_str depth s
  | arr _ ih => exact reads_arr depth ih
  | obj hk _ ih => exact reads_obj depth hk ih

/-- Data that were written are read back. -/
theorem Legible.read_indented {v : Json} (h : v.Legible) : read (indentedChars 0 v) = .ok v := by
  have hv := h.reads 0
  have hskip := hv.skip []
  have hread := hv.value [] (2 * (indentedChars 0 v).length + 2) (fun _ hc => nomatch hc) (by omega)
  rw [List.append_nil] at hskip hread
  obtain ⟨c, r, hc, -, -, hbom⟩ := hv.opens
  unfold read
  split
  · next he =>
    rw [hc] at he
    exact absurd (List.cons.inj he).1 hbom
  · simp only [hskip, hread, bind, Except.bind]
    rfl

/-! ## Line breaks -/

theorem return_notMem_lineBreak (depth : Nat) : '\r' ∉ lineBreak depth := by
  simp [lineBreak]

theorem return_notMem_numeral (minus : Bool) (n : Numeral) :
    '\r' ∉ signChars minus ++ n.chars := by
  intro hm
  rcases List.mem_append.mp hm with hm | hm
  · cases minus <;> simp [signChars] at hm
  · exact (n.chars_plain _ hm).not_blank (by decide)

theorem return_notMem_numberChars (x : Float) : '\r' ∉ numberChars x := by
  unfold numberChars
  split
  · decide
  next hn =>
  split
  · split <;> decide
  · next hi =>
    obtain ⟨n, -, ht⟩ := exists_exactText (Bool.eq_false_iff.mpr hn) (Bool.eq_false_iff.mpr hi)
    rw [ht]
    exact return_notMem_numeral _ n

theorem return_notMem_items {depth : Nat} {vs : List Json}
    (h : ∀ v ∈ vs, '\r' ∉ indentedChars depth v) : '\r' ∉ indentedItems depth vs := by
  induction vs with
  | nil => exact List.not_mem_nil
  | cons v vs ih =>
    rw [List.forall_mem_cons] at h
    simp [indentedItems, return_notMem_lineBreak, h.1, ih h.2]

theorem return_notMem_fields {depth : Nat} {fs : List (String × Json)}
    (h : ∀ f ∈ fs, '\r' ∉ indentedChars depth f.2) : '\r' ∉ indentedFields depth fs := by
  induction fs with
  | nil => exact List.not_mem_nil
  | cons f fs ih =>
    obtain ⟨k, v⟩ := f
    rw [List.forall_mem_cons] at h
    simp [indentedFields, return_notMem_lineBreak, return_notMem_stringChars, h.1, ih h.2]

/-- Line breaks are written as newlines alone. -/
theorem Legible.return_notMem {v : Json} (h : v.Legible) (depth : Nat) :
    '\r' ∉ indentedChars depth v := by
  induction h generalizing depth with
  | null =>
    rw [indentedChars]
    decide
  | bool b =>
    rw [indentedChars]
    cases b <;> decide
  | int =>
    rw [indentedChars, int_toList]
    exact return_notMem_numeral _ _
  | real =>
    rw [indentedChars]
    exact return_notMem_numberChars _
  | str s =>
    rw [indentedChars]
    exact return_notMem_stringChars s
  | @arr list _ ih =>
    cases list with
    | nil =>
      rw [indentedChars]
      decide
    | cons v vs =>
      have hvs := return_notMem_items fun w hw => ih w (List.mem_cons_of_mem v hw) (depth + 1)
      simp [indentedChars, return_notMem_lineBreak, ih v (by simp), hvs]
  | @obj list _ _ ih =>
    cases list with
    | nil =>
      rw [indentedChars]
      decide
    | cons f fs =>
      obtain ⟨k, v⟩ := f
      have hfs := return_notMem_fields fun g hg => ih g (List.mem_cons_of_mem (k, v) hg) (depth + 1)
      simp [indentedChars, return_notMem_lineBreak, return_notMem_stringChars, ih (k, v) (by simp),
        hfs]

end AgentScript.Json
