import OrderKeeper.Proofs.Quota.Waiting

/-!
# Waits in whole milliseconds

Intervals are whole milliseconds. Where the clock is read in whole milliseconds too, all that a pool has to do with time
is (`Pool.Whole`): a sliding window has only times that the clock has shown, and a fixed one starts a number of intervals
after the opening, unless it has been left behind by more than can be made up for in one go (`Pool.Whole.refresh`). Then
the waits are whole as well (`Turnstile.dvd_wait`).
-/

namespace OrderKeeper

namespace Pool

/-- The times of a window are whole milliseconds. -/
def Window.Whole : Window → Prop
  | .fixed start _ => Span.milli ∣ start
  | .sliding log _ => ∀ c ∈ log, Span.milli ∣ c.1
  | .bucket _ _ => True

/-- The interval and the times of a pool are whole milliseconds. -/
structure Whole (p : Pool) : Prop where
  interval : Span.milli ∣ p.interval
  window : Window.Whole p.window

variable {p : Pool} {now : Nat} {w : UInt32}

theorem whole_start (s : PoolSettings) (capacity : UInt32) (hnow : Span.milli ∣ now) :
    (start s capacity now).Whole := by
  refine ⟨Nat.dvd_mul_left _ _, ?_⟩
  cases hkind : s.kind with
  | fixed => simpa [start, hkind, Window.Whole] using hnow
  | sliding => simp [start, hkind, Window.Whole]
  | bucket => simp [start, hkind, Window.Whole]

/-- A pool that can be brought up to a time in one go stays whole. -/
theorem Whole.refresh (h : p.Whole) (hreaches : p.Reaches now) : (p.refresh now).Whole := by
  obtain ⟨hinterval, hwindow⟩ := h
  refine ⟨by rwa [refresh_interval], ?_⟩
  cases hp : p.window with
  | fixed start used =>
    rw [hp] at hwindow
    rw [refresh_fixed hp hreaches]
    exact (Nat.dvd_add_right hwindow).2 (Dvd.dvd.mul_right hinterval _)
  | sliding log used =>
    rw [hp] at hwindow
    rw [refresh_sliding hp]
    exact fun c hc => hwindow c ((forget_suffix p.interval now log used).subset hc)
  | bucket tokens filledAt => simp [Pool.refresh, hp, Window.Whole]

theorem Whole.consume (h : p.Whole) (hnow : Span.milli ∣ now) : (p.consume w now).Whole := by
  obtain ⟨hinterval, hwindow⟩ := h
  refine ⟨hinterval, ?_⟩
  cases hp : p.window with
  | fixed start used => simpa [Pool.consume, hp, Window.Whole] using hwindow
  | sliding log used =>
    rw [hp] at hwindow
    simp only [Pool.consume, hp, Window.Whole, List.forall_mem_append, List.forall_mem_singleton]
    exact ⟨hwindow, hnow⟩
  | bucket tokens filledAt => simp [Pool.consume, hp, Window.Whole]

/-- Room is made an interval after a charge. -/
theorem exists_of_roomAt? {used freed : UInt32} {log : History} {opening : Nat}
    (h : p.roomAt? used w log freed = some opening) : ∃ c ∈ log, opening = c.1 + p.interval := by
  induction log generalizing freed with
  | nil => cases h
  | cons c rest ih =>
    simp only [roomAt?] at h
    split at h
    · cases h
      exact ⟨c, List.mem_cons_self, rfl⟩
    · obtain ⟨d, hd, hopening⟩ := ih h
      exact ⟨d, List.mem_cons_of_mem _ hd, hopening⟩

/-- A window that counts tells whole waits. -/
theorem Whole.waitFor (h : p.Whole) (hcounts : p.window.used?.isSome = true) (hnow : Span.milli ∣ now) :
    Span.milli ∣ p.waitFor w now := by
  obtain ⟨hinterval, hwindow⟩ := h
  unfold Pool.waitFor
  split
  · exact Nat.dvd_zero _
  · cases hp : p.window with
    | fixed start used =>
      rw [hp] at hwindow
      exact Nat.dvd_sub ((Nat.dvd_add_right hwindow).2 hinterval) hnow
    | sliding log used =>
      rw [hp] at hwindow
      dsimp only
      cases hroom : p.roomAt? used w log 0 with
      | none => exact hinterval
      | some opening =>
        obtain ⟨c, hc, rfl⟩ := exists_of_roomAt? hroom
        exact Nat.dvd_sub ((Nat.dvd_add_right (hwindow c hc)).2 hinterval) hnow
    | bucket tokens filledAt =>
      rw [hp] at hcounts
      cases hcounts

end Pool

namespace Turnstile

/-- Time passes by whole milliseconds. -/
def Move.Whole : Move → Prop
  | .pass span => Span.milli ∣ span
  | _ => True

instance : (m : Move) → Decidable m.Whole
  | .pass span => inferInstanceAs (Decidable (Span.milli ∣ span))
  | .tryAcquire .. | .acquire .. | .acquireWithin .. | .retry _ | .available _ | .send _ | .wake _ | .advance _ =>
    inferInstanceAs (Decidable True)

/-- The clock and the pools are in whole milliseconds. -/
structure Whole (t : Turnstile) : Prop where
  now : Span.milli ∣ t.now
  pools : ∀ b, t.line.budget = some b → ∀ name p, b.pools.lookup name = some p → p.Whole

variable {b₀ : Budget} {t t' : Turnstile} {s : LimitSettings}

/-- The clock stays whole. -/
theorem Move.Whole.now {m : Move} (hm : m.Whole) (hnow : Span.milli ∣ t.now) : Span.milli ∣ (t.step m).now := by
  unfold step
  split
  · exact hnow
  · cases m with
    | pass span => exact (Nat.dvd_add_right hnow).2 hm
    | acquire limitId weight | acquireWithin limitId weight timeout =>
      dsimp only
      rwa [(attempted_now t _ _).1]
    | retry place =>
      dsimp only
      split
      · rwa [(attempted_now _ _ _).1]
      · exact hnow
    | wake place | advance place =>
      dsimp only
      split <;> exact hnow
    | tryAcquire limitId weight | available pool | send r => exact hnow

theorem Bears.whole {now now' : Nat} {charges charges' : Pool.History} {p p' : Pool}
    (h : Bears now charges p now' charges' p') (hp : p.Whole) (hreaches : p.Reaches now) (hnow : Span.milli ∣ now) :
    p'.Whole := by
  cases h with
  | waits _ => exact hp
  | refreshed => exact hp.refresh hreaches
  | charged _ _ => exact (hp.refresh hreaches).consume hnow

theorem Passes.whole (h : Passes b₀ t t') (ht : t.Whole) (hpunctual : t.Punctual) (hnow : Span.milli ∣ t'.now)
    {b : Budget} (hb : t.line.budget = some b) : t'.Whole := by
  refine ⟨hnow, fun b' hb' name p' hp' => ?_⟩
  cases hp : b.pools.lookup name with
  | none =>
    rw [h.lookup_eq_none hb hb' hp] at hp'
    cases hp'
  | some p =>
    obtain ⟨b'', p'', hb'', hp'', hbears⟩ := h.bears hb hp
    rw [hb'] at hb''
    cases hb''
    rw [hp'] at hp''
    cases hp''
    exact hbears.whole (ht.pools b hb name p hp) ((hpunctual b hb).of_lookup hp) ht.now

theorem whole_opened (replies : List (String × List Rehearsal.Reply)) {now : Nat} (hnow : Span.milli ∣ now) :
    (opened s replies now).Whole := by
  refine ⟨hnow, ?_⟩
  rintro b ⟨⟩ name p hp
  rw [Budget.lookup_pools_start] at hp
  obtain ⟨q, -, rfl⟩ := Option.map_eq_some_iff.1 hp
  exact Pool.whole_start q _ hnow

/-- A clock of whole milliseconds keeps all pools whole, as long as no fixed window is left behind. -/
theorem whole_run (hq : Queues b₀ t) (ht : t.Whole) {moves : List Move} (hmoves : ∀ m ∈ moves, m.Whole)
    (hpunctual : t.RunsPunctually moves) : (t.run moves).Whole := by
  induction moves generalizing t with
  | nil => exact ht
  | cons m rest ih =>
    obtain ⟨hq', hpasses⟩ := step_cases hq m
    obtain ⟨b, hb, -⟩ := hq.budget
    obtain ⟨hfirst, hrest⟩ := hpunctual
    have hnow := (hmoves m List.mem_cons_self).now ht.now
    exact ih hq' (hpasses.whole ht hfirst hnow hb) (fun m' hm' => hmoves m' (List.mem_cons_of_mem _ hm'))
      (hrest _ rfl)

/-- A turnstile whose pools are whole tells whole waits. -/
theorem dvd_wait (ht : t.Whole) (hpunctual : t.Punctual) (hticking : Ticking s t) (haccounted : Accounted s t)
    {b : Budget} (hb : t.line.budget = some b) {charges : Charges} (hnodup : (charges.map Prod.fst).Nodup)
    {pool : String} {span : Nat} (hwait : (b.reserve t.now charges).2 = some (.wait pool span)) :
    Span.milli ∣ span := by
  have hsurveys := Budget.surveys_reserve hnodup b t.now
  rw [hwait] at hsurveys
  cases hsurveys with
  | wait _ _ _ hsome =>
    obtain ⟨c, -, p, hp, -, rfl⟩ := hsome.resolve_left (by simp)
    have hcounts := (found_of_ticking hticking haccounted hb hp).1.counts
    have hwhole := (ht.pools b hb c.1 p hp).refresh ((hpunctual b hb).of_lookup hp)
    exact hwhole.waitFor (Pool.counts_refresh hcounts _) ht.now

end Turnstile

end OrderKeeper
