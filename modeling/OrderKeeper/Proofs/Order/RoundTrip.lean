import OrderKeeper.Order.Codec
import OrderKeeper.Proofs.Decimal.Reading
import OrderKeeper.Proofs.Json.Records
import OrderKeeper.Proofs.Time.Reading

/-!
# What is exchanged reads back

Events, reports, updates, orders and snapshots go through JSON text without loss. A value is first read from the
members that are written for it, one lemma for each type (`Trade.reads`, `Order.reads`, …); those members nest a few
levels and have no number in them, so their text reads back to them (`Json.Plain`). The only condition is on the
timestamps of a value, which must be `Timestamp.Ordinary`.
-/

namespace OrderKeeper

open Json

/-! ## Names -/

theorem lookup_nameTable {α : Type} {name : α → String} {all : List α} (hname : ∀ a b, name a = name b → a = b) {a : α}
    (ha : a ∈ all) : (nameTable name all).lookup (name a) = some a := by
  induction all with
  | nil => cases ha
  | cons b all ih =>
    rw [nameTable, List.map_cons, List.lookup_cons]
    split
    · next heq => rw [hname a b (eq_of_beq heq)]
    · next hne =>
      apply ih
      rcases List.mem_cons.mp ha with rfl | ha
      · exact absurd (beq_self_eq_true _) (by rw [hne]; decide)
      · exact ha

/-- Names that tell the values of a list apart are read as the values. -/
theorem named?_nameTable {α : Type} {name : α → String} {all : List α} (hname : ∀ a b, name a = name b → a = b) {a : α}
    (ha : a ∈ all) : named? (nameTable name all) strict (.text (name a)) = some a := by
  have hmem : name a ∈ (nameTable name all).map (·.1) := by
    rw [nameTable, List.map_map]
    exact List.mem_map_of_mem ha
  simp only [named?, strict, asNameOf?, asName?, Option.bind_eq_bind, Option.bind_some, if_pos hmem]
  exact lookup_nameTable hname ha

theorem Stage.ofJson?_name (s : Stage) : Stage.ofJson? (.text s.name) = some s :=
  named?_nameTable (by intro a b; cases a <;> cases b <;> simp [Stage.name]) (by cases s <;> decide)

theorem Side.ofJson?_name (s : Side) : Side.ofJson? (.text s.name) = some s :=
  named?_nameTable (by intro a b; cases a <;> cases b <;> simp [Side.name]) (by cases s <;> decide)

theorem Pricing.ofJson?_name (p : Pricing) : Pricing.ofJson? (.text p.name) = some p :=
  named?_nameTable (by intro a b; cases a <;> cases b <;> simp [Pricing.name]) (by cases p <;> decide)

theorem Origin.ofJson?_name (o : Origin) : Origin.ofJson? (.text o.name) = some o :=
  named?_nameTable (by intro a b; cases a <;> cases b <;> simp [Origin.name]) (by cases o <;> decide)

/-! ## Single values -/

theorem Timestamp.ofJson?_toJson {t : Timestamp} (ht : t.Ordinary) : Timestamp.ofJson? t.toJson = some t := by
  rw [Timestamp.ofJson?, Timestamp.toJson, asText?, Option.bind_some, Timestamp.ofText?_toText ht]

theorem asText?_text (s : String) : asText? (.text s) = some s := rfl

theorem asBool?_bool (b : Bool) : asBool? (.bool b) = some b := rfl

theorem asDecimal?_toJson (a : Decimal) : asDecimal? a.toJson = some a := by
  rw [Decimal.toJson, asDecimal?, Decimal.ofText?_toText]

theorem nullable_asText? (s : String) : nullable asText? (.text s) = some (some s) := nullable_text rfl

theorem nullable_asDecimal? (a : Decimal) : nullable asDecimal? a.toJson = some (some a) :=
  nullable_text (asDecimal?_toJson a)

/-! ## Reading the members that are written -/

theorem Symbol.ofJson?_toJson (s : Symbol) : Symbol.ofJson? s.toJson = some s := by
  apply Reads.readRecord
  unfold reader
  refine .bind (.required (asText?_text s.base) (by simp)) ?_
  refine .bind (.required (asText?_text s.quote) (by simp)) ?_
  refine .bind (.optional s.exchangeName nullable_asText? (by simp)) ?_
  exact .pure s

theorem Trade.ofJson?_toJson {t : Trade} (ht : t.timestamp.Ordinary) : Trade.ofJson? t.toJson = some t := by
  apply Reads.readRecord
  unfold reader
  refine .bind (.required (asText?_text t.id) (by simp)) ?_
  refine .bind (.required (asDecimal?_toJson t.price) (by simp)) ?_
  refine .bind (.required (asDecimal?_toJson t.amount) (by simp)) ?_
  refine .bind (.required (asDecimal?_toJson t.fee) (by simp)) ?_
  refine .bind (.optional t.feeAsset nullable_asText? (by simp)) ?_
  refine .bind (.required (Timestamp.ofJson?_toJson ht) (by simp)) ?_
  exact .pure t

/-- A list of trades is read when the times of its trades can be. -/
theorem readList_trades {trades : List Trade} (h : ∀ t ∈ trades, t.timestamp.Ordinary) :
    readList Trade.ofJson? (.list (trades.map Trade.toJson)) = some trades :=
  readList_map fun t ht => Trade.ofJson?_toJson (h t ht)

/-- The times in an order. -/
def Order.times (o : Order) : List Timestamp := [o.createdAt, o.updatedAt, o.observedAt]

/-- An order is read from its members, also when there are trades beside them. -/
theorem Order.reads {o : Order} {ms : List (String × Json)} (htimes : ∀ t ∈ o.times, t.Ordinary)
    (hms : ∀ name ≠ "trades", under name ms = under name o.members) : Reads ms Order.reader o := by
  have hcreated := Timestamp.ofJson?_toJson (htimes o.createdAt (by simp [times]))
  have hupdated := Timestamp.ofJson?_toJson (htimes o.updatedAt (by simp [times]))
  have hobserved := Timestamp.ofJson?_toJson (htimes o.observedAt (by simp [times]))
  unfold reader
  refine .bind (.required (asText?_text o.clientId) (by simp [hms, members])) ?_
  refine .bind (.optional o.exchangeId nullable_asText? (by simp [hms, members])) ?_
  refine .bind (.required o.symbol.ofJson?_toJson (by simp [hms, members])) ?_
  refine .bind (.required o.side.ofJson?_name (by simp [hms, members])) ?_
  refine .bind (.required o.pricing.ofJson?_name (by simp [hms, members])) ?_
  refine .bind (.optional o.price nullable_asDecimal? (by simp [hms, members])) ?_
  refine .bind (.required (asDecimal?_toJson o.amount) (by simp [hms, members])) ?_
  refine .bind (.required (asDecimal?_toJson o.filled) (by simp [hms, members])) ?_
  refine .bind (.required (asDecimal?_toJson o.fee) (by simp [hms, members])) ?_
  refine .bind (.required o.stage.ofJson?_name (by simp [hms, members])) ?_
  refine .bind (.withDefault false (asBool?_bool o.lost) (by simp [hms, members])) ?_
  refine .bind (.optional o.failureReason nullable_asText? (by simp [hms, members])) ?_
  refine .bind (.required hcreated (by simp [hms, members])) ?_
  refine .bind (.required hupdated (by simp [hms, members])) ?_
  refine .bind (.required o.origin.ofJson?_name (by simp [hms, members])) ?_
  refine .bind (.required hobserved (by simp [hms, members])) ?_
  exact .pure o

theorem Order.ofJson?_toJson {o : Order} (htimes : ∀ t ∈ o.times, t.Ordinary) : Order.ofJson? o.toJson = some o :=
  (Order.reads htimes fun _ _ => rfl).readRecord

/-- The times in a snapshot. -/
def Snapshot.times (s : Snapshot) : List Timestamp := s.order.times ++ s.trades.map (·.timestamp)

theorem Snapshot.ofJson?_toJson {s : Snapshot} (htimes : ∀ t ∈ s.times, t.Ordinary) :
    Snapshot.ofJson? s.toJson = some s := by
  have horder : ∀ t ∈ s.order.times, t.Ordinary := fun t ht => htimes t (List.mem_append_left _ ht)
  have htrades : ∀ t ∈ s.trades, t.timestamp.Ordinary :=
    fun t ht => htimes t.timestamp (List.mem_append_right _ (List.mem_map_of_mem ht))
  apply Reads.readNamedRecord
  unfold reader
  refine .bind (Order.reads horder ?_) ?_
  · intro name hname
    simp [Ne.symm hname]
  refine .bind (.required (readList_trades htrades) (by simp [Order.members])) ?_
  exact .pure s

theorem Reference.ofJson?_toJson (r : Reference) : Reference.ofJson? r.toJson = some r := by
  apply Reads.readRecord
  unfold reader
  refine .bind (.optional r.clientId nullable_asText? (by simp)) ?_
  refine .bind (.optional r.exchangeId nullable_asText? (by simp)) ?_
  exact .pure r

theorem Event.ofJson?_toJson {e : Event} (htime : e.timestamp.Ordinary) : Event.ofJson? e.toJson = some e := by
  cases e with
  | statusChange order stage cumulativeFilled timestamp =>
    apply Reads.readRecord
    refine .bind (.required (asText?_text "status_change") (by simp)) ?_
    refine .bind (.required order.ofJson?_toJson (by simp)) ?_
    refine .bind (.required stage.ofJson?_name (by simp)) ?_
    refine .bind (.mayLack cumulativeFilled nullable_asDecimal? (by simp)) ?_
    refine .bind (.required (Timestamp.ofJson?_toJson (t := timestamp) htime) (by simp)) ?_
    exact .pure _
  | fill order trade =>
    apply Reads.readRecord
    refine .bind (.required (asText?_text "fill") (by simp)) ?_
    refine .bind (.required order.ofJson?_toJson (by simp)) ?_
    refine .bind (.required (Trade.ofJson?_toJson htime) (by simp)) ?_
    exact .pure _
  | rejection order reason timestamp =>
    apply Reads.readRecord
    refine .bind (.required (asText?_text "rejection") (by simp)) ?_
    refine .bind (.required order.ofJson?_toJson (by simp)) ?_
    refine .bind (.required (asText?_text reason) (by simp)) ?_
    refine .bind (.required (Timestamp.ofJson?_toJson (t := timestamp) htime) (by simp)) ?_
    exact .pure _

/-- The times in a report. -/
def Report.times (r : Report) : List Timestamp := r.timestamp :: r.trades.map (·.timestamp)

theorem Report.ofJson?_toJson {r : Report} (htimes : ∀ t ∈ r.times, t.Ordinary) :
    Report.ofJson? r.toJson = some r := by
  have htime : r.timestamp.Ordinary := htimes _ (List.mem_cons_self ..)
  have htrades : ∀ t ∈ r.trades, t.timestamp.Ordinary :=
    fun t ht => htimes t.timestamp (List.mem_cons_of_mem _ (List.mem_map_of_mem ht))
  apply Reads.readRecord
  unfold reader
  refine .bind (.mayLack r.clientId nullable_asText? (by simp)) ?_
  refine .bind (.mayLack r.exchangeId nullable_asText? (by simp)) ?_
  refine .bind (.required r.stage.ofJson?_name (by simp)) ?_
  refine .bind (.withDefault [] (readList_trades htrades) (by simp)) ?_
  refine .bind (.mayLack r.reportedFilled nullable_asDecimal? (by simp)) ?_
  refine .bind (.required (Timestamp.ofJson?_toJson htime) (by simp)) ?_
  exact .pure r

theorem Update.ofJson?_toJson {u : Update} (htime : u.timestamp.Ordinary) : Update.ofJson? u.toJson = some u := by
  apply Reads.readRecord
  unfold reader
  refine .bind (.required (asText?_text u.clientId) (by simp)) ?_
  refine .bind (.optional u.exchangeId nullable_asText? (by simp)) ?_
  refine .bind (.required u.previousStage.ofJson?_name (by simp)) ?_
  refine .bind (.required u.stage.ofJson?_name (by simp)) ?_
  refine .bind (.required (asDecimal?_toJson u.filledDelta) (by simp)) ?_
  refine .bind (.required (asDecimal?_toJson u.feeDelta) (by simp)) ?_
  refine .bind (.required (asDecimal?_toJson u.filled) (by simp)) ?_
  refine .bind (.required (asDecimal?_toJson u.fee) (by simp)) ?_
  refine .bind (.required u.origin.ofJson?_name (by simp)) ?_
  refine .bind (.withDefault false (asBool?_bool u.lost) (by simp)) ?_
  refine .bind (.optional u.reason nullable_asText? (by simp)) ?_
  refine .bind (.required (Timestamp.ofJson?_toJson htime) (by simp)) ?_
  exact .pure u

/-! ## The nesting of what is written -/

section Nesting

variable {depth : Nat}

theorem plain_decimal (a : Decimal) : Plain depth a.toJson := .text _

theorem plain_timestamp (t : Timestamp) : Plain depth t.toJson := .text _

theorem Symbol.plain_toJson (s : Symbol) : Plain (depth + 1) s.toJson := by
  apply Plain.object
  simp only [List.forall_mem_append, List.forall_mem_cons, forall_mem_present]
  simp [Plain.text]

theorem Trade.plain_toJson (t : Trade) : Plain (depth + 1) t.toJson := by
  apply Plain.object
  simp only [List.forall_mem_append, List.forall_mem_cons, forall_mem_present]
  simp [Plain.text, plain_decimal, plain_timestamp]

theorem Reference.plain_toJson (r : Reference) : Plain (depth + 1) r.toJson := by
  apply Plain.object
  simp only [List.forall_mem_append, forall_mem_present]
  simp [Plain.text]

theorem plain_trades (trades : List Trade) : Plain (depth + 2) (.list (trades.map Trade.toJson)) := by
  apply Plain.list
  rw [List.forall_mem_map]
  exact fun t _ => t.plain_toJson

theorem Order.plain_members (o : Order) : ∀ m ∈ o.members, Plain (depth + 1) m.2 := by
  simp only [members, List.forall_mem_append, List.forall_mem_cons, forall_mem_present]
  simp [Plain.text, Plain.bool, plain_decimal, plain_timestamp, Symbol.plain_toJson]

theorem Order.plain_toJson (o : Order) : Plain (depth + 2) o.toJson := .object o.plain_members

theorem Snapshot.plain_toJson (s : Snapshot) : Plain (depth + 3) s.toJson := by
  apply Plain.object
  simp only [List.forall_mem_append, List.forall_mem_singleton]
  exact ⟨s.order.plain_members, plain_trades s.trades⟩

theorem Event.plain_toJson (e : Event) : Plain (depth + 2) e.toJson := by
  cases e <;> apply Plain.object <;>
    simp only [List.forall_mem_append, List.forall_mem_cons, forall_mem_present] <;>
    simp [Plain.text, plain_decimal, plain_timestamp, Reference.plain_toJson, Trade.plain_toJson]

theorem Report.plain_toJson (r : Report) : Plain (depth + 3) r.toJson := by
  apply Plain.object
  simp only [List.forall_mem_append, List.forall_mem_cons, forall_mem_present]
  simp [Plain.text, plain_decimal, plain_timestamp, plain_trades]

theorem Update.plain_toJson (u : Update) : Plain (depth + 1) u.toJson := by
  apply Plain.object
  simp only [List.forall_mem_append, List.forall_mem_cons, forall_mem_present]
  simp [Plain.text, Plain.bool, plain_decimal, plain_timestamp]

end Nesting

/-! ## Round trips -/

/-- The text that is written for a value is read as that value, and that one is written as the same text. -/
structure RoundTrips {α : Type} (write : α → Json) (read : Json → Option α) (a : α) : Prop where
  reads : (Json.ofText? (write a).toText).bind read = some a
  rewrites : ((Json.ofText? (write a).toText).bind read).map (fun b => (write b).toText) = some (write a).toText

theorem RoundTrips.of_plain {α : Type} {write : α → Json} {read : Json → Option α} {a : α}
    (hplain : Plain 127 (write a)) (hread : read (write a) = some a) : RoundTrips write read a := by
  have htext : (Json.ofText? (write a).toText).bind read = some a := by
    rw [ofText?_toText hplain, Option.bind_some, hread]
  constructor
  · exact htext
  · rw [htext]
    rfl

/-- Everything that is exchanged goes through JSON text without loss, as long as its times are in years of four
digits. -/
theorem roundTrips_of_ordinary :
    (∀ e : Event, e.timestamp.Ordinary → RoundTrips Event.toJson Event.ofJson? e)
      ∧ (∀ r : Report, (∀ t ∈ r.times, t.Ordinary) → RoundTrips Report.toJson Report.ofJson? r)
      ∧ (∀ u : Update, u.timestamp.Ordinary → RoundTrips Update.toJson Update.ofJson? u)
      ∧ (∀ o : Order, (∀ t ∈ o.times, t.Ordinary) → RoundTrips Order.toJson Order.ofJson? o)
      ∧ (∀ s : Snapshot, (∀ t ∈ s.times, t.Ordinary) → RoundTrips Snapshot.toJson Snapshot.ofJson? s) := by
  refine ⟨?_, ?_, ?_, ?_, ?_⟩
  · intro e htime
    exact .of_plain e.plain_toJson (Event.ofJson?_toJson htime)
  · intro r htimes
    exact .of_plain r.plain_toJson (Report.ofJson?_toJson htimes)
  · intro u htime
    exact .of_plain u.plain_toJson (Update.ofJson?_toJson htime)
  · intro o htimes
    exact .of_plain o.plain_toJson (Order.ofJson?_toJson htimes)
  · intro s htimes
    exact .of_plain s.plain_toJson (Snapshot.ofJson?_toJson htimes)

/-- Half a second into the leap second at the end of 2016. -/
def trialLeapSecond : Timestamp := ⟨1483228799, 1500000000⟩

/-- The amount `1.50`. -/
def trialAmount : Decimal := ⟨150, 2, by decide, by decide⟩

/-- A trade in the leap second. -/
def trialLeapTrade : Trade := ⟨"t\"1\"", trialAmount, trialAmount, Decimal.zero, some "BNB", trialLeapSecond⟩

/-- An order of the leap second without a price. -/
def trialLeapOrder : Order :=
  .ofTicket "c\n1" (.market .sell ⟨"BTC", "USDT", none⟩ trialAmount) trialLeapSecond

theorem roundTrips_trialLeapSecond :
    trialLeapSecond.Ordinary
      ∧ RoundTrips Event.toJson Event.ofJson? (.fill ⟨some "c\n1", none⟩ trialLeapTrade)
      ∧ RoundTrips Report.toJson Report.ofJson?
        ⟨none, some "7", .filled, [trialLeapTrade], some trialAmount, trialLeapSecond⟩
      ∧ RoundTrips Update.toJson Update.ofJson? ⟨"c\n1", some "7", .working, .filled, trialAmount, Decimal.zero,
        trialAmount, Decimal.zero, .snapshot, false, none, trialLeapSecond⟩
      ∧ RoundTrips Order.toJson Order.ofJson? trialLeapOrder
      ∧ RoundTrips Snapshot.toJson Snapshot.ofJson? ⟨trialLeapOrder, [trialLeapTrade]⟩ := by
  have hleap : trialLeapSecond.Ordinary := ⟨by decide +kernel, by decide +kernel, by decide⟩
  obtain ⟨hevent, hreport, hupdate, horder, hsnapshot⟩ := roundTrips_of_ordinary
  refine ⟨hleap, hevent _ hleap, hreport _ ?_, hupdate _ hleap, horder _ ?_, hsnapshot _ ?_⟩ <;>
    simp [Report.times, Snapshot.times, Order.times, trialLeapOrder, trialLeapTrade, Order.ofTicket, hleap]

end OrderKeeper
