import OrderKeeper.Proofs.Sweep.Coverage
import OrderKeeper.Rehearsal.World

/-!
# Cycles that nobody disturbs

The moves of a cycle that come in a row are what the poller does at once. Its looks take the targets, or it is broken
off at an order that is counted out (`run?_looks`), the answer to the query of all open orders is taken in as a batch and
the queries are sent (`run?_batch`), each of them for an order that is still to be asked for
(`World.flights_sendQueries`).
-/

namespace OrderKeeper

namespace Blotter

variable {b : Blotter} {e : Entry} {before later : List Entry}

/-- An entry that is put back stands where it stood. -/
theorem put_of_entries (hids : b.ids.Nodup) (hentries : b.entries = before ++ e :: later) (after : Entry)
    (hafter : after.order.clientId = e.order.clientId) :
    b.put after = { b with entries := before ++ after :: later } := by
  have hnodup : ((before ++ e :: later).map (·.order.clientId)).Nodup := hentries ▸ hids
  rw [List.map_append, List.map_cons] at hnodup
  obtain ⟨-, htail, hdisjoint⟩ := List.nodup_append.1 hnodup
  have hothers : ∀ (es : List Entry), (∀ f ∈ es, f.order.clientId ≠ e.order.clientId) →
      es.map (fun f => if f.order.clientId = after.order.clientId then after else f) = es := by
    intro es hes
    refine (List.map_congr_left fun f hf => ?_).trans (List.map_id es)
    exact if_neg (hafter ▸ hes f hf)
  have hbefore := hothers before fun f hf hname =>
    hdisjoint _ (List.mem_map.2 ⟨f, hf, rfl⟩) _ List.mem_cons_self hname
  have hlater := hothers later fun f hf hname =>
    (List.nodup_cons.1 htail).1 (List.mem_map.2 ⟨f, hf, hname⟩)
  rw [put, hentries, List.map_append, List.map_cons, hbefore, hlater, if_pos hafter.symm]

end Blotter

namespace Patrol

variable {x y : Patrol} {r : Round}

theorem run?_cons {m : Move} (h : x.next? m = some y) (moves : List Move) : x.run? (m :: moves) = y.run? moves := by
  rw [run?, List.foldlM_cons, h]
  rfl

theorem run?_append {moves : List Move} (h : x.run? moves = some y) (later : List Move) :
    x.run? (moves ++ later) = y.run? later := by
  rw [run?, List.foldlM_append, show moves.foldlM next? x = some y from h]
  rfl

/-! ## Looks -/

/-- How far looks in a row come: to the end, with those for targets that are due, or to an order that is counted out. -/
inductive Looks (x : Patrol) (targets : List Order) (todo : List Entry) (r : Round) : Prop
  | ends : (∀ e ∈ todo, e.isCountedOut = false) → r.leg = .looking [] → r.sweep.targets = targets
      ++ ((Blotter.seenPart todo).filter (·.isDue x.blotter.settings.unconfirmedCycles)).map (·.order) →
    Looks x targets todo r
  | breaks {unseen : List String} : (∃ e ∈ todo, e.isCountedOut = true) → r.leg = .brokenOff unseen →
    Looks x targets todo r

/-- The looks come one further when there is one before them. -/
theorem Looks.cons {x₁ : Patrol} {e : Entry} {rest : List Entry} {l : Look} {left : List String} {r' : Round}
    (hcounted : e.isCountedOut = false) (hsettings : x₁.blotter.settings = x.blotter.settings)
    (h : Looks x₁ (r.looked l (e.seen.isDue x.blotter.settings.unconfirmedCycles) left).sweep.targets rest r')
    (hl : l.order = e.order) : Looks x r.sweep.targets (e :: rest) r' := by
  cases h with
  | ends hall hleg htargets =>
    refine .ends (fun f hf => ?_) hleg ?_
    · rcases List.mem_cons.1 hf with rfl | hf
      · exact hcounted
      · exact hall f hf
    · rw [htargets, hsettings, Blotter.seenPart, if_neg (by simp [hcounted])]
      by_cases hdue : e.seen.isDue x.blotter.settings.unconfirmedCycles <;> simp [Round.looked, hdue, hl]
  | breaks hout hleg =>
    obtain ⟨f, hf, hcountedOut⟩ := hout
    exact .breaks ⟨f, List.mem_cons_of_mem _ hf, hcountedOut⟩ hleg

/-- Looks in a row mark the entries one after the other. -/
theorem run?_looks_from (done todo : List Entry) (hr : x.round = some r) (hids : x.blotter.ids.Nodup)
    (hentries : x.blotter.entries = done ++ todo) (hleg : r.leg = .looking (todo.map (·.order.clientId))) :
    ∃ n y r', x.run? (List.replicate n .look) = some y ∧ y.round = some r'
      ∧ y.blotter = { x.blotter with entries := done ++ Blotter.seenPart todo }
      ∧ r'.sweep = { r.sweep with targets := r'.sweep.targets } ∧ Looks x r.sweep.targets todo r' := by
  induction todo generalizing x r done with
  | nil =>
    refine ⟨0, x, r, rfl, hr, ?_, rfl, .ends (by simp) hleg (by simp [Blotter.seenPart])⟩
    rw [Blotter.seenPart, ← hentries]
  | cons e rest ih =>
    have hfound : x.blotter.entry? e.order.clientId = some e :=
      Blotter.entry?_of_mem hids (by rw [hentries]; exact List.mem_append_right _ List.mem_cons_self)
    cases hcounted : e.isCountedOut with
    | true =>
      have hlook := next?_look_of_countedOut hr hleg hfound hcounted
      refine ⟨1, { x with round := some r.broken }, r.broken, run?_cons hlook [], rfl, ?_, rfl,
        .breaks ⟨e, List.mem_cons_self, hcounted⟩ rfl⟩
      rw [Blotter.seenPart, if_pos hcounted, ← hentries]
    | false =>
      have hlook := next?_look hr hleg hfound hcounted
      have hput := Blotter.put_of_entries hids hentries e.seen (by rw [Blotter.seen_order])
      -- the state after the look
      let r₁ := r.looked ⟨e.order, (x.sight e).finds e.order.clientId⟩
        (e.seen.isDue x.blotter.settings.unconfirmedCycles) (rest.map (·.order.clientId))
      let x₁ : Patrol := { x.sight e with round := some r₁ }
      have hblotter : x₁.blotter = { x.blotter with entries := (done ++ [e.seen]) ++ rest } := by
        rw [List.append_assoc]
        exact hput
      obtain ⟨n, y, r', hrun, hround, hblotter', hsweep, hlooks⟩ := ih (x := x₁) (r := r₁) (done ++ [e.seen]) rfl
        (by rw [hblotter]; simpa [Blotter.ids, hentries] using hids) (by rw [hblotter]) rfl
      refine ⟨n + 1, y, r', ?_, hround, ?_, hsweep, hlooks.cons hcounted (by rw [hblotter]) rfl⟩
      · rw [List.replicate_succ, run?_cons hlook, hrun]
      · rw [hblotter', hblotter, Blotter.seenPart, if_neg (by simp [hcounted])]
        simp

/-- A cycle that looks at the orders in a row has the targets of a poll, or is broken off where that is. -/
theorem run?_looks (x : Patrol) (hids : x.blotter.ids.Nodup) (account : String) :
    ∃ n y r, x.run? (.begin account x.blotter.ids :: List.replicate n .look) = some y ∧ y.round = some r
      ∧ (r.leg = .looking [] ∧ Sweep.begin? account x.blotter = (y.blotter, some r.sweep)
        ∨ (∃ unseen, r.leg = .brokenOff unseen) ∧ Sweep.begin? account x.blotter = (y.blotter, none)) := by
  let x₁ : Patrol := { x with round := some (.begin account x.blotter.ids) }
  have hbegin : x.next? (.begin account x.blotter.ids) = some x₁ := if_pos (List.Perm.refl _)
  obtain ⟨n, y, r, hrun, hround, hblotter, hsweep, hlooks⟩ :=
    run?_looks_from (x := x₁) [] x.blotter.entries rfl hids rfl rfl
  refine ⟨n, y, r, by rw [run?_cons hbegin, hrun], hround, ?_⟩
  rw [hblotter]
  cases hlooks with
  | ends hall hleg htargets =>
    have hnone : x.blotter.entries.any Entry.isCountedOut = false := List.any_eq_false.2 fun e he => by simp [hall e he]
    refine .inl ⟨hleg, ?_⟩
    rw [hsweep, htargets]
    simp [Sweep.begin?, Blotter.pollTargets?, hnone, Round.begin, x₁]
  | breaks hout hleg =>
    have hany : x.blotter.entries.any Entry.isCountedOut = true := List.any_eq_true.2 hout
    refine .inr ⟨⟨_, hleg⟩, ?_⟩
    simp [Sweep.begin?, Blotter.pollTargets?, hany, x₁]

/-! ## The batch -/

/-- Reports in a row are taken in as those of a batch. -/
theorem run?_reads {reports : List Report} {now : Timestamp} {s : Sweep} {changes : List Change}
    (hr : x.round = some r) (hleg : r.leg = .reading reports)
    (htake : r.sweep.takeReports? x.blotter now reports = some (s, changes)) :
    ∃ y r', x.run? (List.replicate reports.length (.read now)) = some y ∧ y.round = some r' ∧ r'.leg = .reading []
      ∧ r'.sweep = s ∧ y.blotter = changes.foldl (fun _ c => c.blotter) x.blotter := by
  induction reports generalizing x r changes with
  | nil =>
    cases htake
    exact ⟨x, r, rfl, hr, hleg, rfl, rfl⟩
  | cons report rest ih =>
    simp only [Sweep.takeReports?, Option.bind_eq_bind, Option.bind_eq_some_iff, Prod.exists] at htake
    obtain ⟨c, hreport, s', changes', hrest, hs⟩ := htake
    cases hs
    let x₁ : Patrol := { x with blotter := c.blotter, round := some (r.read x.blotter report c rest) }
    have hread : x.next? (.read now) = some x₁ := by
      simp only [next?, hr, Option.bind_some, read?, hleg, hreport]
      rfl
    obtain ⟨y, r', hrun, hround, hleg', hsweep, hblotter⟩ := ih (x := x₁) rfl rfl hrest
    refine ⟨y, r', ?_, hround, hleg', hsweep, hblotter⟩
    rw [List.length_cons, List.replicate_succ, run?_cons hread, hrun]

/-- The answer to the query of all open orders, its reports and the sending of the queries in a row are a batch. -/
theorem run?_batch {answer : Except Failure (List Report)} {now : Timestamp} {s : Sweep} {changes : List Change}
    (hr : x.round = some r) (hbatches : x.batches = true) (hleg : r.leg = .looking [])
    (hfresh : r.sweep.confirmed = []) (htake : r.sweep.takeBatch? x.blotter now answer = some (s, changes)) :
    ∃ y r', x.run? (.batch answer :: List.replicate (answer.toOption.getD []).length (.read now) ++ [.send]) = some y
      ∧ y.round = some r' ∧ r'.leg = .querying (s.pending.map (·.clientId)) ∧ r'.sweep = s
      ∧ y.blotter = changes.foldl (fun _ c => c.blotter) x.blotter := by
  let x₁ : Patrol := { x with round := some (r.heard x.blotter answer) }
  have hhear : x.next? (.batch answer) = some x₁ := by
    simp only [next?, hr, Option.bind_some, hear?, hleg, hbatches, if_true, x₁]
  have hsend : ∀ {y : Patrol} {r' : Round}, y.round = some r' → r'.leg = .reading [] →
      y.run? [.send] = some { y with round := some r'.asks } := by
    intro y r' hround hleg'
    have hnext : y.next? .send = some { y with round := some r'.asks } := by
      simp only [next?, hround, Option.bind_some, send?, hleg']
    rw [run?_cons hnext]
    rfl
  rw [List.cons_append, run?_cons hhear]
  cases answer with
  | ok reports =>
    obtain ⟨⟨s₁, changes₁⟩, hreports, hs⟩ := Option.bind_eq_some_iff.1 htake
    cases hs
    obtain ⟨y, r', hrun, hround, hleg', rfl, hblotter⟩ := run?_reads (x := x₁) rfl rfl hreports
    rw [show (Except.ok reports : Except Failure (List Report)).toOption.getD [] = reports from rfl, run?_append hrun,
      hsend hround hleg']
    exact ⟨_, r'.asks, rfl, rfl, rfl, rfl, hblotter⟩
  | error f =>
    cases htake
    rw [show (Except.error f : Except Failure (List Report)).toOption.getD [] = [] from rfl, List.length_nil,
      List.replicate_zero, List.nil_append, hsend rfl rfl]
    refine ⟨_, _, rfl, rfl, rfl, ?_, rfl⟩
    simp [Round.asks, Round.heard, Sweep.fail, hfresh]

end Patrol

/-! ## Queries -/

namespace Rehearsal.World

/-- One query after the other is sent, up to the last or to one that is broken off. -/
theorem names_sendAll (w : World) (orders : List Order) :
    (w.sendAll orders).2.map Prod.fst <+: orders.map (·.clientId)
      ∧ ((∀ p ∈ (w.sendAll orders).2, p.2.fault? = none) →
        (w.sendAll orders).2.map Prod.fst = orders.map (·.clientId)) := by
  induction orders generalizing w with
  | nil => exact ⟨List.prefix_refl _, fun _ => rfl⟩
  | cons o rest ih =>
    simp only [sendAll]
    split
    · next hbroken =>
      refine ⟨⟨_, rfl⟩, fun hall => ?_⟩
      rw [hall _ List.mem_cons_self] at hbroken
      cases hbroken
    · obtain ⟨hfirst, hwhole⟩ := ih (w.send (w.dialect.status o)).1
      refine ⟨?_, fun hall => ?_⟩
      · rw [List.map_cons, List.map_cons]
        exact (List.prefix_cons_inj _).2 hfirst
      · rw [List.map_cons, List.map_cons, hwhole fun p hp => hall p (List.mem_cons_of_mem _ hp)]

/-- One query is sent for each order that is still to be asked for, unless one of them is broken off. -/
theorem flights_sendQueries (w : World) (s : Sweep) : ∃ flights, (w.sendQueries s).2 = .queries s flights
    ∧ flights.map Prod.fst <+: s.pending.map (·.clientId)
    ∧ ((∀ p ∈ flights, p.2.fault? = none) → flights.map Prod.fst = s.pending.map (·.clientId)) :=
  ⟨_, rfl, names_sendAll w s.pending⟩

end Rehearsal.World

end OrderKeeper
