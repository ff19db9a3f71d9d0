import OrderKeeper.Json.Fields
import OrderKeeper.Proofs.Json.Text

/-!
# Records by name read back

A reader that is given members by name looks at those of one name at a time (`under`) and leaves them all where they
are. `Reads ms r a` says that the reader `r` takes the value `a` from the members `ms`; a record is read by going
through its members one after the other (`Reads.bind`), each by the lemma of its kind.
-/

namespace OrderKeeper.Json

variable {α β : Type} {ms : List (String × Json)} {name : String}

/-! ## Members of a name -/

/-- The members of a name. -/
def under (name : String) (ms : List (String × Json)) : List (String × Json) := ms.filter fun m => m.1 = name

@[simp]
theorem under_nil (name : String) : under name [] = [] := rfl

@[simp]
theorem under_cons (name key : String) (v : Json) (ms : List (String × Json)) :
    under name ((key, v) :: ms) = if key = name then (key, v) :: under name ms else under name ms := by
  simp [under, List.filter_cons]

@[simp]
theorem under_append (name : String) (ms ns : List (String × Json)) :
    under name (ms ++ ns) = under name ms ++ under name ns := List.filter_append _ _

@[simp]
theorem under_present (name key : String) (write : α → Json) (o : Option α) :
    under name (present key write o) = if key = name then present key write o else [] := by
  cases o with
  | none => simp [present]
  | some a => simp [present]

/-- What holds of every member of an optional one holds of its value, if there is one. -/
@[simp]
theorem forall_mem_present {P : String × Json → Prop} {key : String} {write : α → Json} {o : Option α} :
    (∀ m ∈ present key write o, P m) ↔ ∀ a, o = some a → P (key, write a) := by
  cases o with
  | none => simp [present]
  | some a => simp [present]

theorem take_of_under_nil (h : under name ms = []) : Members.take name (.named ms) = some (none, .named ms) := by
  rw [under] at h
  rw [Members.take, h]

theorem take_of_under_singleton {v : Json} (h : under name ms = [(name, v)]) :
    Members.take name (.named ms) = some (some v, .named ms) := by
  rw [under] at h
  rw [Members.take, h]

/-! ## Readers -/

/-- A reader takes a value from members that are given by name. -/
def Reads (ms : List (String × Json)) (r : MemberReader α) (a : α) : Prop := r (.named ms) = some (a, .named ms)

namespace Reads

variable {v : Json} {a : α} {b : β}

theorem pure (a : α) : Reads ms (pure a) a := rfl

theorem bind {r : MemberReader α} {f : α → MemberReader β} (hr : Reads ms r a) (hf : Reads ms (f a) b) :
    Reads ms (r >>= f) b := by
  change (r (.named ms)).bind (fun x => f x.1 x.2) = _
  rw [hr]
  exact hf

theorem lift {answer : Option α} (h : answer = some a) : Reads ms (StateT.lift answer) a := by
  subst h
  rfl

theorem required {read : Json → Option α} (hread : read v = some a) (hname : under name ms = [(name, v)]) :
    Reads ms (required name read) a := by
  apply bind (take_of_under_singleton hname)
  exact lift hread

theorem withDefault {read : Json → Option α} (standIn : α) (hread : read v = some a)
    (hname : under name ms = [(name, v)]) : Reads ms (withDefault name standIn read) a := by
  apply bind (take_of_under_singleton hname)
  exact lift hread

/-- A member that is left out when there is no value is read as it was written. -/
theorem mayLack {read : Json → Option α} {write : α → Json} (o : Option α)
    (hread : ∀ a, nullable read (write a) = some (some a)) (hname : under name ms = present name write o) :
    Reads ms (mayLack name read) o := by
  cases o with
  | none => exact bind (take_of_under_nil hname) (pure none)
  | some a => exact bind (take_of_under_singleton hname) (lift (hread a))

/-- By name an optional member may be left out. -/
theorem optional {read : Json → Option α} {write : α → Json} (o : Option α)
    (hread : ∀ a, nullable read (write a) = some (some a)) (hname : under name ms = present name write o) :
    Reads ms (optional name read) o := by
  have hsame : Json.optional name read (.named ms) = Json.mayLack name read (.named ms) := rfl
  rw [Reads, hsame]
  exact mayLack o hread hname

theorem readRecord {r : MemberReader α} (h : Reads ms r a) : readRecord r (.object ms) = some a := by
  change (r (.named ms)).bind (fun x => if x.2.isDone then some x.1 else none) = _
  rw [h]
  rfl

theorem readNamedRecord {r : MemberReader α} (h : Reads ms r a) : readNamedRecord r (.object ms) = some a := by
  rw [Json.readNamedRecord, h]
  rfl

end Reads

/-! ## Values -/

theorem nullable_text {read : Json → Option α} {s : String} {a : α} (h : read (.text s) = some a) :
    nullable read (.text s) = some (some a) := by
  rw [nullable, h]
  · rfl
  · exact Json.noConfusion

/-- A list is read when every item of it is. -/
theorem readList_map {read : Json → Option α} {write : α → Json} {items : List α}
    (h : ∀ a ∈ items, read (write a) = some a) : readList read (.list (items.map write)) = some items := by
  rw [readList]
  induction items with
  | nil => rfl
  | cons a items ih =>
    rw [List.map_cons, List.mapM_cons, h a (List.mem_cons_self ..), ih fun b hb => h b (List.mem_cons_of_mem a hb)]
    rfl

end OrderKeeper.Json
