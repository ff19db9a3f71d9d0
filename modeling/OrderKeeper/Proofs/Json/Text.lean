import OrderKeeper.Json.Reader
import OrderKeeper.Json.Writer

/-!
# Written JSON text reads back

Values without numbers are followed from the writer to the reader: a string through its escapes
(`readString_escaped`), a value through its nesting (`readValue_toChars`). `Plain depth v` says that a value has no
number in it and nests at most `depth` levels; the reader has 127. The fuel of the reader counts steps, and no part of
a text takes more steps than it has characters.
-/

namespace OrderKeeper.Json

/-! ## Strings -/

theorem hexValue?_hexDigit (n : Nat) : hexValue? (hexDigit n) = some (n % 16) := by
  have h : ∀ k : Fin 16, hexValue? (if k.val < 10 then Char.ofNat (48 + k) else Char.ofNat (87 + k)) = some k.val := by
    decide
  exact h ⟨n % 16, Nat.mod_lt _ (by decide)⟩

/-- A control character is read from its four digits. -/
theorem unicodeEscape?_hexDigit {c : Char} (hc : c.toNat < 32) (rest : List Char) :
    unicodeEscape? ('0' :: '0' :: hexDigit (c.toNat / 16) :: hexDigit c.toNat :: rest) = some (c, rest) := by
  have hhex : hex4? ('0' :: '0' :: hexDigit (c.toNat / 16) :: hexDigit c.toNat :: rest) = some (c.toNat, rest) := by
    have hzero : hexValue? '0' = some 0 := by decide
    simp only [hex4?, hzero, hexValue?_hexDigit, Option.bind_eq_bind, Option.bind_some, Option.pure_def]
    congr 2
    omega
  simp only [unicodeEscape?, hhex, Option.bind_eq_bind, Option.bind_some, Option.pure_def]
  rw [if_neg (by omega), if_neg (by omega), Char.ofNat_toNat]

/-- A character is written as an escape that stands for it, or as it is when nothing forbids that. -/
theorem escape_cases (c : Char) :
    (∃ e, escape c = '\\' :: e ∧ ∀ rest, escaped? (e ++ rest) = some (c, rest))
      ∨ escape c = [c] ∧ c ≠ '"' ∧ c ≠ '\\' ∧ 32 ≤ c.toNat := by
  unfold escape
  split
  case h_8 hquote hslash _ _ _ _ _ =>
    split
    · next hc => exact .inl ⟨_, rfl, unicodeEscape?_hexDigit hc⟩
    · next hc => exact .inr ⟨rfl, hquote, hslash, by omega⟩
  all_goals exact .inl ⟨_, rfl, fun _ => rfl⟩

/-- The reader takes a written character in one step. -/
theorem readString_escape (c : Char) (fuel : Nat) (rest : List Char) :
    readString (fuel + 1) (escape c ++ rest) = (readString fuel rest).map fun (cs, rest) => (c :: cs, rest) := by
  rcases escape_cases c with ⟨e, he, hread⟩ | ⟨he, hquote, hslash, hc⟩
  · rw [he, List.cons_append, readString]
    simp only [hread, Option.bind_eq_bind, Option.bind_some]
    cases readString fuel rest <;> rfl
  · rw [he, List.singleton_append, readString]
    · rw [if_neg (by omega)]
      cases readString fuel rest <;> rfl
    · exact hquote
    · exact hslash

/-- A written string is read to its closing quote. -/
theorem readString_escaped (cs : List Char) {fuel : Nat} (hfuel : cs.length ≤ fuel) (rest : List Char) :
    readString fuel (cs.flatMap escape ++ '"' :: rest) = some (cs, rest) := by
  induction cs generalizing fuel with
  | nil => simp [readString]
  | cons c cs ih =>
    obtain ⟨fuel, rfl⟩ : ∃ n, fuel = n + 1 := ⟨fuel - 1, by simp at hfuel; omega⟩
    rw [List.flatMap_cons, List.append_assoc, readString_escape, ih (by simpa using hfuel)]
    rfl

/-- A character is written as one or more. -/
theorem escape_ne_nil (c : Char) : escape c ≠ [] := by
  rcases escape_cases c with ⟨e, he, -⟩ | ⟨he, -⟩ <;> simp [he]

theorem length_le_flatMap_escape (cs : List Char) : cs.length ≤ (cs.flatMap escape).length := by
  induction cs with
  | nil => exact Nat.le_refl _
  | cons c cs ih =>
    have hc := List.length_pos_iff.mpr (escape_ne_nil c)
    rw [List.flatMap_cons, List.length_append, List.length_cons]
    omega

/-- A string with its quotes is read from its opening quote on. -/
theorem readString_quoted (s : String) (rest : List Char) :
    ∃ cs, quoted s ++ rest = '"' :: cs ∧ readString cs.length cs = some (s.toList, rest) := by
  refine ⟨s.toList.flatMap escape ++ '"' :: rest, by simp [quoted], readString_escaped s.toList ?_ rest⟩
  have hle := length_le_flatMap_escape s.toList
  rw [List.length_append]
  omega

/-! ## Values without numbers -/

/-- A value that has no number in it and nests at most so many levels. -/
inductive Plain : Nat → Json → Prop where
  | null {depth : Nat} : Plain depth null
  | bool {depth : Nat} (b : Bool) : Plain depth (bool b)
  | text {depth : Nat} (s : String) : Plain depth (text s)
  | list {depth : Nat} {items : List Json} (h : ∀ v ∈ items, Plain depth v) : Plain (depth + 1) (list items)
  | object {depth : Nat} {members : List (String × Json)} (h : ∀ m ∈ members, Plain depth m.2) :
    Plain (depth + 1) (object members)

/-- What a written value without numbers begins with: no blank, and no closing bracket. -/
def Opens (cs : List Char) : Prop := ∃ c rest, c ∈ ['n', 't', 'f', '"', '[', '\x7b'] ∧ cs = c :: rest

variable {depth fuel : Nat} {v : Json} {cs : List Char}

theorem Opens.append (h : Opens cs) (rest : List Char) : Opens (cs ++ rest) := by
  obtain ⟨c, tail, hc, rfl⟩ := h
  exact ⟨c, tail ++ rest, hc, rfl⟩

theorem Plain.opens (h : Plain depth v) : Opens (toChars v) := by
  cases h with
  | null => exact ⟨'n', _, by decide, rfl⟩
  | bool b =>
    cases b
    · exact ⟨'f', _, by decide, rfl⟩
    · exact ⟨'t', _, by decide, rfl⟩
  | text s => exact ⟨'"', _, by decide, rfl⟩
  | @list _ items _ =>
    cases items with
    | nil => exact ⟨'[', _, by decide, rfl⟩
    | cons v rest => exact ⟨'[', _, by decide, rfl⟩
  | @object _ members _ =>
    cases members with
    | nil => exact ⟨'\x7b', _, by decide, rfl⟩
    | cons m rest => exact ⟨'\x7b', _, by decide, rfl⟩

/-! ## Reading values -/

/-- A written value is read with at least as much fuel as it has characters, whatever follows it. -/
def ReadsBack (depth : Nat) (v : Json) : Prop :=
  ∀ fuel rest, (toChars v).length ≤ fuel → readValue fuel depth (toChars v ++ rest) = some (v, rest)

theorem readValue_list (h : Opens cs) :
    readValue (fuel + 1) (depth + 1) ('[' :: cs)
      = (readItems fuel depth cs).map fun (vs, rest) => (list vs, rest) := by
  obtain ⟨c, tail, hc, rfl⟩ := h
  simp only [List.mem_cons, List.not_mem_nil, or_false] at hc
  rcases hc with rfl | rfl | rfl | rfl | rfl | rfl <;> rfl

theorem readValue_object :
    readValue (fuel + 1) (depth + 1) ('\x7b' :: '"' :: cs)
      = (readMembers fuel depth ('"' :: cs)).map fun (ms, rest) => (object ms, rest) := rfl

section Steps

variable {vs : List Json} {ms : List (String × Json)} {rest tail : List Char} {name : String}

theorem readItems_last (hv : readValue fuel depth cs = some (v, ']' :: rest)) :
    readItems (fuel + 1) depth cs = some ([v], rest) := by
  rw [readItems, hv]
  rfl

theorem readItems_more (hv : readValue fuel depth cs = some (v, ',' :: tail))
    (hmore : readItems fuel depth tail = some (vs, rest)) : readItems (fuel + 1) depth cs = some (v :: vs, rest) := by
  have hskip : skipBlank (',' :: tail) = ',' :: tail := rfl
  rw [readItems, hv]
  simp only [Option.bind_eq_bind, Option.bind_some, hskip, hmore]
  rfl

theorem readMembers_last (hv : readValue fuel depth cs = some (v, '\x7d' :: rest)) :
    readMembers (fuel + 1) depth (quoted name ++ ':' :: cs) = some ([(name, v)], rest) := by
  obtain ⟨inner, heq, hname⟩ := readString_quoted name (':' :: cs)
  have hquote : skipBlank ('"' :: inner) = '"' :: inner := rfl
  have hcolon : skipBlank (':' :: cs) = ':' :: cs := rfl
  rw [heq, readMembers]
  simp only [hquote, hname, Option.bind_eq_bind, Option.bind_some, hcolon, hv, String.ofList_toList]
  rfl

theorem readMembers_more (hv : readValue fuel depth cs = some (v, ',' :: tail))
    (hmore : readMembers fuel depth tail = some (ms, rest)) :
    readMembers (fuel + 1) depth (quoted name ++ ':' :: cs) = some ((name, v) :: ms, rest) := by
  obtain ⟨inner, heq, hname⟩ := readString_quoted name (':' :: cs)
  have hquote : skipBlank ('"' :: inner) = '"' :: inner := rfl
  have hcolon : skipBlank (':' :: cs) = ':' :: cs := rfl
  have hcomma : skipBlank (',' :: tail) = ',' :: tail := rfl
  rw [heq, readMembers]
  simp only [hquote, hname, Option.bind_eq_bind, Option.bind_some, hcolon, hv, String.ofList_toList, hcomma, hmore]
  rfl

end Steps

/-- A list is read to its end when each of its items is read. -/
theorem readItems_itemChars {items : List Json} (hv : ReadsBack depth v) (hitems : ∀ w ∈ items, ReadsBack depth w)
    (hfuel : (toChars v).length + (itemChars items).length ≤ fuel) (rest : List Char) :
    readItems fuel depth (toChars v ++ (itemChars items ++ rest)) = some (v :: items, rest) := by
  induction items generalizing v fuel with
  | nil =>
    obtain ⟨fuel, rfl⟩ : ∃ n, fuel = n + 1 := ⟨fuel - 1, by simp [itemChars] at hfuel; omega⟩
    apply readItems_last
    exact hv fuel _ (by simp [itemChars] at hfuel; omega)
  | cons w items ih =>
    rw [itemChars, List.length_append, List.length_cons] at hfuel
    obtain ⟨fuel, rfl⟩ : ∃ n, fuel = n + 1 := ⟨fuel - 1, by omega⟩
    rw [itemChars, List.append_assoc, List.cons_append]
    apply readItems_more (hv fuel _ (by omega))
    exact ih (hitems w (List.mem_cons_self ..)) (fun x hx => hitems x (List.mem_cons_of_mem w hx)) (by omega)

/-- An object is read to its end when the value of each of its members is read. -/
theorem readMembers_memberChars {members : List (String × Json)} {name : String} (hv : ReadsBack depth v)
    (hmembers : ∀ m ∈ members, ReadsBack depth m.2)
    (hfuel : (toChars v).length + (memberChars members).length ≤ fuel) (rest : List Char) :
    readMembers fuel depth (quoted name ++ ':' :: (toChars v ++ (memberChars members ++ rest)))
      = some ((name, v) :: members, rest) := by
  induction members generalizing name v fuel with
  | nil =>
    obtain ⟨fuel, rfl⟩ : ∃ n, fuel = n + 1 := ⟨fuel - 1, by simp [memberChars] at hfuel; omega⟩
    apply readMembers_last
    exact hv fuel _ (by simp [memberChars] at hfuel; omega)
  | cons m members ih =>
    obtain ⟨n, w⟩ := m
    rw [memberChars, List.length_append, List.length_append, List.length_cons, List.length_cons] at hfuel
    obtain ⟨fuel, rfl⟩ : ∃ n, fuel = n + 1 := ⟨fuel - 1, by omega⟩
    rw [memberChars]
    simp only [List.append_assoc, List.cons_append]
    apply readMembers_more (hv fuel _ (by omega))
    exact ih (hmembers (n, w) (List.mem_cons_self ..)) (fun x hx => hmembers x (List.mem_cons_of_mem _ hx)) (by omega)

/-- A value that begins with a character has some fuel to begin with. -/
theorem ReadsBack.of_opens (hopen : Opens (toChars v))
    (hread : ∀ fuel rest, (toChars v).length ≤ fuel + 1 →
      readValue (fuel + 1) depth (toChars v ++ rest) = some (v, rest)) : ReadsBack depth v := by
  intro fuel rest hfuel
  obtain ⟨fuel, rfl⟩ : ∃ n, fuel = n + 1 := by
    obtain ⟨c, tail, -, heq⟩ := hopen
    rw [heq, List.length_cons] at hfuel
    exact ⟨fuel - 1, by omega⟩
  exact hread fuel rest hfuel

theorem ReadsBack.text (s : String) : ReadsBack depth (text s) := by
  apply ReadsBack.of_opens ⟨'"', _, by decide, rfl⟩
  intro fuel rest _
  obtain ⟨cs, heq, hread⟩ := readString_quoted s rest
  rw [toChars, heq]
  change (readString cs.length cs).map _ = _
  rw [hread]
  simp only [Option.map_some, String.ofList_toList]

theorem ReadsBack.list {items : List Json} (hopen : ∀ w ∈ items, Opens (toChars w))
    (hitems : ∀ w ∈ items, ReadsBack depth w) : ReadsBack (depth + 1) (list items) := by
  cases items with
  | nil => exact .of_opens ⟨'[', _, by decide, rfl⟩ fun _ _ _ => rfl
  | cons w items =>
    apply ReadsBack.of_opens ⟨'[', _, by decide, rfl⟩
    intro fuel rest hfuel
    rw [toChars, List.length_append, List.length_cons] at hfuel
    rw [toChars, List.cons_append, List.cons_append, List.append_assoc,
      readValue_list ((hopen w (List.mem_cons_self ..)).append _),
      readItems_itemChars (hitems w (List.mem_cons_self ..)) (fun x hx => hitems x (List.mem_cons_of_mem w hx))
        (by omega)]
    rfl

theorem ReadsBack.object {members : List (String × Json)} (hmembers : ∀ m ∈ members, ReadsBack depth m.2) :
    ReadsBack (depth + 1) (object members) := by
  cases members with
  | nil => exact .of_opens ⟨'\x7b', _, by decide, rfl⟩ fun _ _ _ => rfl
  | cons m members =>
    obtain ⟨name, w⟩ := m
    apply ReadsBack.of_opens ⟨'\x7b', _, by decide, rfl⟩
    intro fuel rest hfuel
    have hw : ReadsBack depth w := hmembers _ (List.mem_cons_self ..)
    have hread := @readMembers_memberChars depth fuel w members name hw
      (fun x hx => hmembers x (List.mem_cons_of_mem _ hx)) (by simp [toChars] at hfuel; omega) rest
    obtain ⟨cs, heq, -⟩ := readString_quoted name (':' :: (toChars w ++ (memberChars members ++ rest)))
    rw [toChars]
    simp only [List.append_assoc, List.cons_append]
    rw [heq] at hread ⊢
    rw [readValue_object, hread]
    rfl

/-- Every value without numbers is read back from its text. -/
theorem Plain.readsBack (h : Plain depth v) : ReadsBack depth v := by
  induction h with
  | null => exact .of_opens ⟨'n', _, by decide, rfl⟩ fun _ _ _ => rfl
  | bool b =>
    cases b
    · exact .of_opens ⟨'f', _, by decide, rfl⟩ fun _ _ _ => rfl
    · exact .of_opens ⟨'t', _, by decide, rfl⟩ fun _ _ _ => rfl
  | text s => exact .text s
  | list h ih => exact .list (fun w hw => (h w hw).opens) ih
  | object h ih => exact .object ih

/-- A written value without numbers is read, as long as it nests no deeper than the reader goes. -/
theorem ofText?_toText (h : Plain 127 v) : ofText? v.toText = some v := by
  have hread := h.readsBack (2 * (toChars v).length + 2) [] (by omega)
  rw [List.append_nil] at hread
  rw [ofText?, toText, String.toList_ofList]
  simp only [hread, Option.bind_eq_bind, Option.bind_some]
  rfl

end OrderKeeper.Json
