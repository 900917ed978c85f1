import VirePortal.Client.LogStore

/-!
# No log entry is lost or sent twice

The entries that `Store` accepted are, in their order, those of the calls of `send` one after the
other and then those in the buffer (`Conserved.sent`), and the batches of a call are its entries as
far as its loop has come (`Send.Batched`). So an entry that a call of `send` got is in one call and
in one batch of it. Which calls and batches those are is said by positions (`Placed`), since entries
may be equal.

In a fair run the timer or `Close` empties the buffer at some time, and every call of `send` comes
to its end. So every entry arrives in a batch (`log_conservation`).
-/

namespace VirePortal.Client

open Go Auth Concurrent

/-! ### Positions in a concatenation -/

/-- The `j`-th element of the concatenation is `x`, which is the `i`-th of the `k`-th part. -/
def Placed {α : Type} (parts : List (List α)) (j k i : ℕ) (x : α) : Prop :=
  ∃ part, parts[k]? = some part ∧ part[i]? = some x ∧ (parts.take k).flatten.length + i = j

section

variable {α : Type} {part : List α} {parts : List (List α)} {j k i : ℕ} {x : α}

/-- A place in the first part. -/
theorem placed_zero : Placed (part :: parts) j 0 i x ↔ part[i]? = some x ∧ i = j := by
  simp [Placed]

/-- A place in a later part. -/
theorem placed_succ :
    Placed (part :: parts) j (k + 1) i x ↔ part.length ≤ j ∧
      Placed parts (j - part.length) k i x := by
  simp only [Placed, List.getElem?_cons_succ, List.take_succ_cons, List.flatten_cons,
    List.length_append]
  constructor
  · rintro ⟨p, hp, hx, rfl⟩
    exact ⟨by omega, p, hp, hx, by omega⟩
  · rintro ⟨hj, p, hp, hx, hlength⟩
    exact ⟨p, hp, hx, by omega⟩

/-- Every element of a concatenation has one position in one part. -/
theorem existsUnique_placed (h : parts.flatten[j]? = some x) :
    ∃! p : ℕ × ℕ, Placed parts j p.1 p.2 x := by
  induction parts generalizing j with
  | nil => simp at h
  | cons part parts ih =>
    rw [List.flatten_cons] at h
    by_cases hj : j < part.length
    · -- The element is in the first part, and too early for the others.
      rw [List.getElem?_append_left hj] at h
      refine ⟨(0, j), placed_zero.2 ⟨h, rfl⟩, ?_⟩
      rintro ⟨k, i⟩ hp
      cases k with
      | zero =>
        obtain ⟨-, rfl⟩ := placed_zero.1 hp
        rfl
      | succ k => exact absurd (placed_succ.1 hp).1 (by omega)
    · rw [List.getElem?_append_right (by omega)] at h
      obtain ⟨⟨k, i⟩, hp, hunique⟩ := ih h
      refine ⟨(k + 1, i), placed_succ.2 ⟨by omega, hp⟩, ?_⟩
      rintro ⟨k', i'⟩ hp'
      cases k' with
      | zero =>
        obtain ⟨hx, rfl⟩ := placed_zero.1 hp'
        exact absurd (List.getElem?_eq_some_iff.1 hx).1 (by omega)
      | succ k' =>
        have heq := hunique (k', i') (placed_succ.1 hp').2
        rw [Prod.mk.injEq] at heq ⊢
        omega

end

/-! ### The sections -/

/-- What a section does that adds `new` to the buffer, leaves the store `s'` and hands `sent` to
`send`. -/
structure Section (s : HTTPLogStore) (new : List LogIngestEntry) (s' : HTTPLogStore)
    (sent : Option (List LogIngestEntry)) : Prop where
  moved : s.buf ++ new = sent.getD [] ++ s'.buf
  nonempty : sent ≠ some []
  short : s.buf.length < logFlushSize → s'.buf.length < logFlushSize
  drained : (s.closed = true → s.buf = []) → s'.closed = true → s'.buf = []
  closed : s.closed = true → new = [] ∧ s'.closed = true

variable {s : HTTPLogStore} {w : World}

/-- A section that changes nothing but the timer. -/
theorem section_idle (s : HTTPLogStore) (armed : Bool) :
    Section s [] { s with armed := armed } none :=
  ⟨by simp, by simp, id, id, fun h => ⟨rfl, h⟩⟩

/-- After `flushLocked` the buffer is empty. -/
@[simp]
theorem flushLocked_buf (s : HTTPLogStore) : s.flushLocked.1.buf = [] := by
  unfold HTTPLogStore.flushLocked
  split_ifs with hbuf
  · exact List.length_eq_zero_iff.1 hbuf
  · rfl

/-- A flush changes no flag. -/
theorem flushLocked_flags (s : HTTPLogStore) :
    s.flushLocked.1.armed = s.armed ∧ s.flushLocked.1.closed = s.closed := by
  unfold HTTPLogStore.flushLocked
  split_ifs
  · exact ⟨rfl, rfl⟩
  · exact ⟨rfl, rfl⟩

/-- The flush takes the buffer. -/
theorem section_flushLocked (s : HTTPLogStore) : Section s [] s.flushLocked.1 s.flushLocked.2 := by
  have hshort : s.flushLocked.1.buf.length < logFlushSize := by
    rw [flushLocked_buf]
    decide
  refine ⟨?_, ?_, fun _ => hshort, fun _ _ => flushLocked_buf s,
    fun h => ⟨rfl, (flushLocked_flags s).2.trans h⟩⟩
  all_goals
    unfold HTTPLogStore.flushLocked
    split_ifs with hbuf
  · simp
  · simp
  · simp
  · rw [ne_eq, Option.some_inj, ← List.length_eq_zero_iff]
    exact hbuf

/-- A closed store refuses. -/
theorem store_closed (h : s.closed = true) (entry : LogEvent) :
    s.store entry = (some (ascii "log store closed"), s, none) := if_pos h

/-- An open store accepts, and flushes when it is full. -/
theorem store_open (h : s.closed = false) (entry : LogEvent) :
    s.store entry = (none, if logFlushSize ≤ (s.buf ++ [ingest entry]).length then
      { s with buf := s.buf ++ [ingest entry] }.flushLocked
    else ({ s with buf := s.buf ++ [ingest entry] }, none)) := by
  unfold HTTPLogStore.store
  rw [if_neg (by simp [h])]
  dsimp only
  split_ifs
  · rfl
  · rfl

/-- What `Store` does to the buffer. -/
theorem section_store (s : HTTPLogStore) (entry : LogEvent) :
    Section s (if (s.store entry).1 = none then [ingest entry] else []) (s.store entry).2.1
      (s.store entry).2.2 := by
  rcases hclosed : s.closed with _ | _
  · rw [store_open hclosed, if_pos rfl]
    have hopen : ¬ s.closed = true := by simp [hclosed]
    dsimp only
    split_ifs with hfull
    · -- The entry fills the buffer.
      have hflush := section_flushLocked { s with buf := s.buf ++ [ingest entry] }
      refine ⟨?_, hflush.nonempty, fun _ => ?_, fun _ _ => flushLocked_buf _,
        fun h => absurd h hopen⟩
      · have hmoved := hflush.moved
        rw [List.append_nil] at hmoved
        exact hmoved
      · rw [flushLocked_buf]
        decide
    · exact ⟨rfl, by simp, fun _ => Nat.lt_of_not_le hfull, fun _ h => absurd h hopen,
        fun h => absurd h hopen⟩
  · rw [store_closed hclosed]
    exact section_idle s s.armed

/-- What the timer does to the buffer. -/
theorem section_timerFlush (s : HTTPLogStore) : Section s [] s.timerFlush.1 s.timerFlush.2 := by
  unfold HTTPLogStore.timerFlush
  split_ifs
  · exact section_idle s s.armed
  · have hflush := section_flushLocked s
    exact ⟨hflush.moved, hflush.nonempty, hflush.short, hflush.drained, hflush.closed⟩

/-- What `Close` does to the buffer. -/
theorem section_close (s : HTTPLogStore) : Section s [] s.close.1 s.close.2 := by
  have hshort : ([] : List LogIngestEntry).length < logFlushSize := by decide
  unfold HTTPLogStore.close
  refine ⟨?_, ?_, fun _ => hshort, fun _ _ => rfl, fun _ => ⟨rfl, rfl⟩⟩
  · dsimp only
    split_ifs with hbuf
    · simp
    · have hnil : s.buf = [] := List.length_eq_zero_iff.1 (by omega)
      rw [hnil]
      rfl
  · dsimp only
    split_ifs with hbuf
    · rw [ne_eq, Option.some_inj, ← List.length_eq_zero_iff]
      omega
    · simp

/-! ### One step -/

/-- What holds of a call of `send`: it got entries, and its batches are the entries up to where its
loop is, in batches that are not empty and not too long. -/
structure Send.Batched (s : Send) : Prop where
  nonempty : s.entries ≠ []
  split : s.batches.flatten = s.entries.take s.i
  sizes : ∀ batch ∈ s.batches, batch ≠ [] ∧ batch.length ≤ logMaxBatch

/-- The invariant. -/
structure Conserved (w : World) : Prop where
  sent : w.accepted.map ingest = (w.sends.map Send.entries).flatten ++ w.store.buf
  short : w.store.buf.length < logFlushSize
  drained : w.store.closed = true → w.store.buf = []
  batched : ∀ s ∈ w.sends, s.Batched

/-- The batch of a turn. -/
theorem Send.turn_eq {s : Send} (h : s.i < s.entries.length) :
    s.turn = { s with i := s.i + logMaxBatch,
                      batches := s.batches ++ [(s.entries.drop s.i).take logMaxBatch] } := by
  unfold Send.turn
  rw [if_pos h]
  dsimp only
  have hbatch : (s.entries.take (if s.entries.length < s.i + logMaxBatch then s.entries.length
      else s.i + logMaxBatch)).drop s.i = (s.entries.drop s.i).take logMaxBatch := by
    split_ifs with hstop
    · rw [List.take_length, List.take_of_length_le (by rw [List.length_drop]; omega)]
    · rw [List.drop_take]
      congr 1
      omega
  rw [hbatch]

/-- A finished send does nothing. -/
theorem Send.turn_of_finished {s : Send} (h : s.Finished) : s.turn = s :=
  if_neg (Nat.not_lt.2 h)

/-- A send keeps its entries. -/
@[simp]
theorem Send.turn_entries (s : Send) : s.turn.entries = s.entries := by
  unfold Send.turn
  split_ifs
  · rfl
  · rfl

/-- A send keeps its batches. -/
theorem Send.Batched.turn {s : Send} (h : s.Batched) : s.turn.Batched := by
  by_cases hi : s.i < s.entries.length
  · rw [Send.turn_eq hi]
    refine ⟨h.nonempty, ?_, fun batch hbatch => ?_⟩
    · -- The batch goes on where the ones before it end.
      dsimp only
      rw [List.flatten_append, h.split, List.flatten_singleton, ← List.take_add]
    · rcases List.mem_append.1 hbatch with hbatch | hbatch
      · exact h.sizes batch hbatch
      · rw [List.mem_singleton.1 hbatch]
        constructor
        · rw [ne_eq, ← List.length_eq_zero_iff, List.length_take, List.length_drop]
          have hpos : 0 < logMaxBatch := by decide
          omega
        · rw [List.length_take]
          exact Nat.min_le_left _ _
  · rw [Send.turn_of_finished (Nat.not_lt.1 hi)]
    exact h

/-- What `Store` accepts. -/
theorem accepted_step_store (w : World) (entry : LogEvent) :
    (w.step (.store entry)).accepted =
      w.accepted ++ if (w.store.store entry).1 = none then [entry] else [] := by
  show List.filterMap _ (w.stored ++ [(entry, (w.store.store entry).1)]) = _
  rw [List.filterMap_append]
  congr 1
  split_ifs with herr
  · simp [herr]
  · simp [herr]

/-- A step that is no turn of `send` is a section that accepts what it adds to the buffer. -/
theorem step_section (w : World) {l : Label} (hl : ∀ k, l ≠ .send k) :
    ∃ new sent, Section w.store (new.map ingest) (w.step l).store sent ∧
      (w.step l).sends = w.sends ++ World.calls sent ∧ (w.step l).accepted = w.accepted ++ new := by
  have hidle : ∀ armed, Section w.store ([].map ingest) { w.store with armed := armed } none :=
    section_idle w.store
  cases l with
  | store entry =>
    have hsection := section_store w.store entry
    -- `Store` adds an entry to the buffer exactly when it accepts the event.
    have hnew : (if (w.store.store entry).1 = none then [ingest entry] else []) =
        (if (w.store.store entry).1 = none then [entry] else []).map ingest := by
      split_ifs
      · rfl
      · rfl
    rw [hnew] at hsection
    exact ⟨_, _, hsection, rfl, accepted_step_store w entry⟩
  | close => exact ⟨[], _, section_close w.store, rfl, (List.append_nil _).symm⟩
  | fire =>
    refine ⟨[], none, ?_⟩
    rw [World.step_fire]
    split_ifs
    · exact ⟨hidle false, (List.append_nil _).symm, (List.append_nil _).symm⟩
    · exact ⟨hidle w.store.armed, (List.append_nil _).symm, (List.append_nil _).symm⟩
  | timerFlush =>
    rw [World.step_timerFlush]
    split_ifs
    · exact ⟨[], _, section_timerFlush w.store, rfl, (List.append_nil _).symm⟩
    · exact ⟨[], none, hidle w.store.armed, (List.append_nil _).symm, (List.append_nil _).symm⟩
  | send k => exact absurd rfl (hl k)

/-- The sends keep their entries. -/
theorem map_entries_modify (sends : List Send) (k : ℕ) :
    (sends.modify k Send.turn).map Send.entries = sends.map Send.entries := by
  refine List.ext_getElem? fun j => ?_
  rw [List.getElem?_map, List.getElem?_modify, List.getElem?_map]
  rcases sends[j]? with _ | s
  · rfl
  · by_cases hk : k = j
    · simp [hk]
    · simp [hk]

/-- The entries of the calls of `send` that a section makes. -/
theorem flatten_calls (sent : Option (List LogIngestEntry)) :
    ((World.calls sent).map Send.entries).flatten = sent.getD [] := by
  rcases sent with _ | entries
  · rfl
  · simp [World.calls]

/-- A new call of `send` has entries and no batches yet. -/
theorem batched_calls {sent : Option (List LogIngestEntry)} (h : sent ≠ some []) :
    ∀ s ∈ World.calls sent, s.Batched := by
  intro s hs
  rcases sent with _ | entries
  · simp [World.calls] at hs
  · rw [List.mem_singleton.1 hs]
    exact ⟨fun hnil => h (congrArg some hnil), rfl, by simp⟩

/-- Every step keeps the invariant. -/
theorem Conserved.step (h : Conserved w) (l : Label) : Conserved (w.step l) := by
  by_cases hl : ∃ k, l = .send k
  · obtain ⟨k, rfl⟩ := hl
    refine ⟨?_, h.short, h.drained, fun s hs => ?_⟩
    · -- A turn moves entries of one call into a batch, and no entry between calls.
      show _ = ((w.sends.modify k Send.turn).map Send.entries).flatten ++ _
      rw [map_entries_modify]
      exact h.sent
    · obtain ⟨j, hj⟩ := List.mem_iff_getElem?.1 hs
      change (w.sends.modify k Send.turn)[j]? = some s at hj
      rw [List.getElem?_modify] at hj
      obtain ⟨s0, hs0, rfl⟩ := Option.map_eq_some_iff.1 hj
      have hbatched := h.batched s0 (List.mem_of_getElem? hs0)
      split_ifs
      · exact hbatched.turn
      · exact hbatched
  · obtain ⟨new, sent, hsection, hsends, haccepted⟩ := step_section w (not_exists.1 hl)
    refine ⟨?_, hsection.short h.short, hsection.drained h.drained, fun s hs => ?_⟩
    · -- What the section takes from the buffer is what it hands to `send`.
      rw [haccepted, hsends, List.map_append, h.sent, List.map_append, List.flatten_append,
        flatten_calls, List.append_assoc, List.append_assoc, hsection.moved]
    · rw [hsends] at hs
      rcases List.mem_append.1 hs with hs | hs
      · exact h.batched s hs
      · exact batched_calls hsection.nonempty s hs

/-- The calls of `send` stay, with their entries. -/
theorem prefix_step_sends (w : World) (l : Label) :
    w.sends.map Send.entries <+: (w.step l).sends.map Send.entries := by
  by_cases hl : ∃ k, l = .send k
  · obtain ⟨k, rfl⟩ := hl
    show _ <+: (w.sends.modify k Send.turn).map Send.entries
    rw [map_entries_modify]
  · obtain ⟨new, sent, -, hsends, -⟩ := step_section w (not_exists.1 hl)
    rw [hsends, List.map_append]
    exact List.prefix_append _ _

/-- What is accepted stays so. -/
theorem prefix_step_accepted (w : World) (l : Label) : w.accepted <+: (w.step l).accepted := by
  by_cases hl : ∃ k, l = .send k
  · obtain ⟨k, rfl⟩ := hl
    exact List.prefix_rfl
  · obtain ⟨new, sent, -, -, haccepted⟩ := step_section w (not_exists.1 hl)
    rw [haccepted]
    exact List.prefix_append _ _

/-- A closed store stays closed and accepts nothing. -/
theorem closed_step (h : w.store.closed = true) (l : Label) :
    (w.step l).store.closed = true ∧ (w.step l).accepted = w.accepted := by
  by_cases hl : ∃ k, l = .send k
  · obtain ⟨k, rfl⟩ := hl
    exact ⟨h, rfl⟩
  · obtain ⟨new, sent, hsection, -, haccepted⟩ := step_section w (not_exists.1 hl)
    obtain ⟨hnew, hclosed⟩ := hsection.closed h
    rw [haccepted, List.map_eq_nil_iff.1 hnew, List.append_nil]
    exact ⟨hclosed, rfl⟩

/-! ### Fair runs -/

/-- The states of the run with the labels `ls`, from a new store. -/
def run (ls : ℕ → Label) : ℕ → World := trace World.step {} ls

/-- A fair run: a timer that is to fire does so, unless `Close` stops it, and what was started goes
on: the calls of `timerFlush` get the lock, and the calls of `send` make their turns. -/
structure Fair (ls : ℕ → Label) : Prop where
  timer : ∀ n, (run ls n).store.armed = true → ∃ m, n ≤ m ∧ (ls m = .fire ∨ ls m = .close)
  flush : ∀ n, 0 < (run ls n).flushes → ∃ m, n ≤ m ∧ ls m = .timerFlush
  send : ∀ n k s, (run ls n).sends[k]? = some s → ¬ s.Finished → ∃ m, n ≤ m ∧ ls m = .send k

/-- The store is closed, or its timer is to fire, or has fired. -/
def Alive (w : World) : Prop := w.store.closed = true ∨ w.store.armed = true ∨ 0 < w.flushes

/-- At least `N` entries were handed to `send`. -/
def HandedOver (N : ℕ) (w : World) : Prop := N ≤ (w.sends.map Send.entries).flatten.length

/-- At least `N` entries were accepted, in a world with the invariant. -/
structure Owed (N : ℕ) (w : World) : Prop where
  conserved : Conserved w
  accepted : N ≤ w.accepted.length

/-- What is owed stays so. -/
theorem Owed.step {N : ℕ} (h : Owed N w) (l : Label) : Owed N (w.step l) :=
  ⟨h.conserved.step l, h.accepted.trans (prefix_step_accepted w l).length_le⟩

/-- With an empty buffer, what was accepted was handed over. -/
theorem Owed.handedOver {N : ℕ} (h : Owed N w) (hbuf : w.store.buf = []) : HandedOver N w := by
  have hlength := congrArg List.length h.conserved.sent
  rw [hbuf, List.append_nil, List.length_map] at hlength
  unfold HandedOver
  rw [← hlength]
  exact h.accepted

/-- `Store` leaves the timer and the flag as they are. -/
theorem flags_store (s : HTTPLogStore) (entry : LogEvent) :
    (s.store entry).2.1.armed = s.armed ∧ (s.store entry).2.1.closed = s.closed := by
  rcases hclosed : s.closed with _ | _
  · rw [store_open hclosed]
    dsimp only
    split_ifs
    · rw [← hclosed]
      exact flushLocked_flags _
    · exact ⟨rfl, hclosed⟩
  · rw [store_closed hclosed]
    exact ⟨rfl, hclosed⟩

/-- After `timerFlush` the buffer is empty. -/
theorem timerFlush_buf (h : Conserved w) : w.store.timerFlush.1.buf = [] := by
  unfold HTTPLogStore.timerFlush
  split_ifs with hclosed
  · exact h.drained hclosed
  · exact flushLocked_buf _

/-- `timerFlush` leaves a store closed, or starts the timer again. -/
theorem timerFlush_flags (s : HTTPLogStore) :
    s.timerFlush = (s, none) ∧ s.closed = true ∨ s.timerFlush.1.armed = true := by
  unfold HTTPLogStore.timerFlush
  split_ifs with hclosed
  · exact .inl ⟨rfl, hclosed⟩
  · exact .inr rfl

/-- A store that is alive stays so. -/
theorem Alive.step (h : Alive w) (l : Label) : Alive (w.step l) := by
  cases l with
  | store entry =>
    obtain ⟨harmed, hclosed⟩ := flags_store w.store entry
    show (w.store.store entry).2.1.closed = true ∨ (w.store.store entry).2.1.armed = true ∨
      0 < w.flushes
    rw [harmed, hclosed]
    exact h
  | close => exact .inl rfl
  | fire =>
    rw [World.step_fire]
    split_ifs
    · exact .inr (.inr (Nat.succ_pos _))
    · exact h
  | timerFlush =>
    rw [World.step_timerFlush]
    split_ifs
    · -- `timerFlush` starts the timer again, unless the store is closed.
      rcases timerFlush_flags w.store with ⟨hflush, hclosed⟩ | harmed
      · rw [hflush]
        exact .inl hclosed
      · exact .inr (.inl harmed)
    · exact h
  | send k => exact h

variable {ls : ℕ → Label} {N : ℕ}

/-- A call of `timerFlush` that waits comes to empty the buffer. -/
theorem waiting_leadsTo (hfair : Fair ls) :
    LeadsTo (run ls) (fun w => Owed N w ∧ 0 < w.flushes) (HandedOver N) := by
  refine leadsTo_of_label (fun l => l = .timerFlush) ?_ ?_ fun n h => hfair.flush n h.2
  · -- Until it locks, the others only add calls.
    rintro w l hl ⟨howed, hflushes⟩
    refine .inl ⟨howed.step l, ?_⟩
    cases l with
    | store entry => exact hflushes
    | close => exact hflushes
    | fire =>
      rw [World.step_fire]
      split_ifs
      · exact Nat.succ_pos _
      · exact hflushes
    | timerFlush => exact absurd rfl hl
    | send k => exact hflushes
  · rintro w l rfl ⟨howed, hflushes⟩
    refine (howed.step _).handedOver ?_
    rw [World.step_timerFlush, if_pos hflushes]
    exact timerFlush_buf howed.conserved

/-- A timer that is to fire comes to start `timerFlush`, unless `Close` empties the buffer first. -/
theorem armed_leadsTo (hfair : Fair ls) :
    LeadsTo (run ls) (fun w => Owed N w ∧ w.store.armed = true)
      (fun w => HandedOver N w ∨ Owed N w ∧ 0 < w.flushes) := by
  refine leadsTo_of_label (fun l => l = .fire ∨ l = .close) ?_ ?_ fun n h => hfair.timer n h.2
  · -- Only the two labels of the timer disarm it.
    rintro w l hl ⟨howed, harmed⟩
    refine .inl ⟨howed.step l, ?_⟩
    cases l with
    | store entry => exact (flags_store w.store entry).1.trans harmed
    | close => exact absurd (.inr rfl) hl
    | fire => exact absurd (.inl rfl) hl
    | timerFlush =>
      rw [World.step_timerFlush]
      split_ifs
      · rcases timerFlush_flags w.store with ⟨hflush, -⟩ | harmed'
        · rw [hflush]
          exact harmed
        · exact harmed'
      · exact harmed
    | send k => exact harmed
  · rintro w l (rfl | rfl) ⟨howed, harmed⟩
    · refine .inr ⟨howed.step _, ?_⟩
      rw [World.step_fire, if_pos harmed]
      exact Nat.succ_pos _
    · exact .inl ((howed.step .close).handedOver rfl)

/-- What is accepted comes to be handed over. -/
theorem owed_leadsTo (hfair : Fair ls) : LeadsTo (run ls) (Owed N) (HandedOver N) := by
  intro n howed
  have halive : Alive (run ls n) :=
    trace_invariant (.inr (.inl rfl)) (fun w l h => h.step l) n
  -- Whatever state the timer is in, the buffer comes to be emptied.
  rcases halive with hclosed | harmed | hflushes
  · exact ⟨n, le_rfl, howed.handedOver (howed.conserved.drained hclosed)⟩
  · obtain ⟨m, hm, hdone | hwaiting⟩ := armed_leadsTo hfair n ⟨howed, harmed⟩
    · exact ⟨m, hm, hdone⟩
    · obtain ⟨k, hk, hdone⟩ := waiting_leadsTo hfair m hwaiting
      exact ⟨k, hm.trans hk, hdone⟩
  · exact waiting_leadsTo hfair n ⟨howed, hflushes⟩

/-- The call of `send` with the number `k` has come to its end. -/
def FinishedAt (k : ℕ) (w : World) : Prop := ∃ s, w.sends[k]? = some s ∧ s.Finished

/-- A send takes its turn. -/
theorem getElem?_step_send {k : ℕ} {s : Send} (h : w.sends[k]? = some s) :
    (w.step (.send k)).sends[k]? = some s.turn := by
  show (w.sends.modify k Send.turn)[k]? = some s.turn
  rw [List.getElem?_modify, h]
  simp

/-- The other steps leave a call of `send` as it is. -/
theorem getElem?_step_other {k : ℕ} {s : Send} (h : w.sends[k]? = some s) {l : Label}
    (hl : l ≠ .send k) : (w.step l).sends[k]? = some s := by
  by_cases hsend : ∃ j, l = .send j
  · obtain ⟨j, rfl⟩ := hsend
    have hne : j ≠ k := fun hjk => hl (by rw [hjk])
    show (w.sends.modify j Send.turn)[k]? = some s
    rw [List.getElem?_modify, h]
    simp [hne]
  · obtain ⟨new, sent, -, hsends, -⟩ := step_section w (not_exists.1 hsend)
    rw [hsends, List.getElem?_append_left (List.getElem?_eq_some_iff.1 h).1]
    exact h

/-- A finished send stays so. -/
theorem FinishedAt.step {k : ℕ} (h : FinishedAt k w) (l : Label) : FinishedAt k (w.step l) := by
  obtain ⟨s, hs, hfinished⟩ := h
  by_cases hl : l = .send k
  · refine ⟨s.turn, ?_, ?_⟩
    · rw [hl]
      exact getElem?_step_send hs
    · rw [Send.turn_of_finished hfinished]
      exact hfinished
  · exact ⟨s, getElem?_step_other hs hl, hfinished⟩

/-- Every call of `send` comes to its end. -/
theorem send_leadsTo (hfair : Fair ls) (k : ℕ) :
    LeadsTo (run ls) (fun w => ∃ s, w.sends[k]? = some s) (FinishedAt k) := by
  -- The rank is the number of entries ahead of the loop.
  let rank : World → ℕ := fun w => match w.sends[k]? with
    | some s => s.entries.length - s.i
    | none => 0
  have hrank : ∀ {w : World} {s : Send}, w.sends[k]? = some s →
      rank w = s.entries.length - s.i := by
    intro w s hs
    simp only [rank, hs]
  refine leadsTo_of_rank rank fun r n => ?_
  rintro ⟨⟨s, hs⟩, hr⟩
  by_cases hfinished : s.Finished
  · exact ⟨n, le_rfl, .inl ⟨s, hs, hfinished⟩⟩
  · have hturn : LeadsTo (run ls) (fun w => w.sends[k]? = some s)
        (fun w => w.sends[k]? = some s.turn) := by
      refine leadsTo_of_label (fun l => l = .send k) ?_ ?_ fun n hn => hfair.send n k s hn hfinished
      · exact fun w l hl h => .inl (getElem?_step_other h hl)
      · rintro w l rfl h
        exact getElem?_step_send h
    obtain ⟨m, hm, hs'⟩ := hturn n hs
    refine ⟨m, hm, .inr ⟨⟨s.turn, hs'⟩, ?_⟩⟩
    have hi : s.i < s.entries.length := Nat.lt_of_not_le hfinished
    have hpos : 0 < logMaxBatch := by decide
    rw [hrank hs] at hr
    rw [hrank hs', Send.turn_entries, Send.turn_eq hi]
    dsimp only
    omega

/-! ### Conservation -/

/-- The `j`-th accepted entry, which is `x`, is in one call of `send`, and in one batch of that
call. -/
def Delivered (j : ℕ) (x : LogIngestEntry) (w : World) : Prop :=
  ∃! p : ℕ × ℕ, ∃ s, w.sends[p.1]? = some s ∧ Placed (w.sends.map Send.entries) j p.1 p.2 x ∧
    ∃! q : ℕ × ℕ, Placed s.batches p.2 q.1 q.2 x

/-- More parts are longer. -/
theorem length_flatten_le {parts parts' : List (List LogIngestEntry)} (h : parts <+: parts') :
    parts.flatten.length ≤ parts'.flatten.length := by
  obtain ⟨more, rfl⟩ := h
  rw [List.flatten_append, List.length_append]
  omega

/-- An entry that was handed to calls of `send` that have all come to their end is delivered. -/
theorem delivered_of_finished (h : Conserved w) {j : ℕ} {e : LogEvent}
    (he : w.accepted[j]? = some e) {parts : List (List LogIngestEntry)}
    (hparts : parts <+: w.sends.map Send.entries) (hj : j < parts.flatten.length)
    (hfinished : ∀ k < parts.length, FinishedAt k w) :
    Delivered j (ingest e) w := by
  have hx : (w.sends.map Send.entries).flatten[j]? = some (ingest e) := by
    have hmap : (w.accepted.map ingest)[j]? = some (ingest e) := by
      rw [List.getElem?_map, he]
      rfl
    have hlength := length_flatten_le hparts
    rw [h.sent, List.getElem?_append_left (by omega)] at hmap
    exact hmap
  obtain ⟨⟨k, i⟩, hplaced, hunique⟩ := existsUnique_placed hx
  obtain ⟨part, hpart, hi, hoffset⟩ := id hplaced
  dsimp only at hpart hi hoffset
  -- The call is one of those that have come to their end.
  have hk : k < parts.length := by
    by_contra hk
    have hbefore : parts <+: (w.sends.map Send.entries).take k :=
      List.prefix_take_iff.2 ⟨hparts, by omega⟩
    have hlength := length_flatten_le hbefore
    omega
  obtain ⟨s, hs, hdone⟩ := hfinished k hk
  have hbatches : s.batches.flatten[i]? = some (ingest e) := by
    rw [List.getElem?_map, hs] at hpart
    rw [(h.batched s (List.mem_of_getElem? hs)).split, List.take_of_length_le hdone,
      Option.some.inj hpart]
    exact hi
  refine ⟨(k, i), ⟨s, hs, hplaced, existsUnique_placed hbatches⟩, ?_⟩
  rintro p ⟨-, -, hp, -⟩
  exact hunique p hp

/-- The entries are conserved in every run. -/
theorem run_conserved (ls : ℕ → Label) (n : ℕ) : Conserved (run ls n) :=
  trace_invariant ⟨rfl, by decide, fun h => rfl, by simp⟩ (fun _ l h => h.step l) n

/-- In every run the accepted entries are those of the calls of `send` and of the buffer, in the
order in which `Store` accepted them, in batches that are not empty and of at most `logMaxBatch`
entries, and the buffer has fewer than `logFlushSize`. After `Close` has locked, `Store` accepts
nothing. In a fair run every accepted entry comes to be in one call of `send` and in one batch of
it. -/
theorem log_conservation (ls : ℕ → Label) :
    (∀ n, Conserved (run ls n)) ∧
    (∀ n m, ls n = .close → n ≤ m → (run ls m).accepted = (run ls n).accepted) ∧
    (Fair ls → ∀ n j e, (run ls n).accepted[j]? = some e →
      ∃ m, ∀ m', m ≤ m' → Delivered j (ingest e) (run ls m')) := by
  refine ⟨run_conserved ls, fun n m hclose hm => ?_, fun hfair n j e he => ?_⟩
  · rcases hm.eq_or_lt with rfl | hlt
    · rfl
    · have hstable : (run ls m).store.closed = true ∧ (run ls m).accepted =
          (run ls n).accepted := by
        refine trace_stable (P := fun w : World => w.store.closed = true ∧
          w.accepted = (run ls n).accepted)
          (fun w l h => ?_) (Nat.succ_le_of_lt hlt) ?_
        · obtain ⟨hclosed, haccepted⟩ := closed_step h.1 l
          exact ⟨hclosed, haccepted.trans h.2⟩
        · show ((run ls n).step (ls n)).store.closed = true ∧ ((run ls n).step (ls n)).accepted = _
          rw [hclose]
          exact ⟨rfl, rfl⟩
      exact hstable.2
  · have hj := (List.getElem?_eq_some_iff.1 he).1
    -- The entry is handed to a call of `send` …
    obtain ⟨m, hm, hhanded⟩ := owed_leadsTo hfair n (N := j + 1) ⟨run_conserved ls n, hj⟩
    -- … and all calls that there are by then come to their end.
    have hends : ∀ k < ((run ls m).sends.map Send.entries).length,
        ∃ m', m ≤ m' ∧ FinishedAt k (run ls m') := by
      intro k hk
      rw [List.length_map] at hk
      exact send_leadsTo hfair k m ⟨_, List.getElem?_eq_getElem hk⟩
    obtain ⟨m', hm', hfinished⟩ := eventually_forall_lt (fun k w l h => h.step l) hends
    refine ⟨m', fun m'' hm'' => ?_⟩
    have haccepted : (run ls n).accepted <+: (run ls m'').accepted :=
      trace_rel (r := fun w w' : World => w.accepted <+: w'.accepted) (fun _ => List.prefix_rfl)
        List.IsPrefix.trans prefix_step_accepted (by omega)
    have hsends : (run ls m).sends.map Send.entries <+: (run ls m'').sends.map Send.entries :=
      trace_rel (r := fun w w' : World => w.sends.map Send.entries <+: w'.sends.map Send.entries)
        (fun _ => List.prefix_rfl) List.IsPrefix.trans prefix_step_sends (by omega)
    refine delivered_of_finished (run_conserved ls m'') ?_ hsends (Nat.lt_of_succ_le hhanded) ?_
    · obtain ⟨more, hmore⟩ := haccepted
      rw [← hmore, List.getElem?_append_left hj]
      exact he
    · exact fun k hk => trace_stable (fun w l h => FinishedAt.step h l) hm'' (hfinished k hk)

/-- An event. -/
def started : LogEvent := { timestamp := 0, level := .info, message := "started" }

/-- The event is stored, the store is closed, and the call of `send` makes its turns. -/
def closing : ℕ → Label
  | 0 => .store started
  | 1 => .close
  | _ => .send 0

/-- After the closing nothing is left to flush. -/
theorem closing_run (n : ℕ) : (run closing (n + 2)).store.armed = false ∧
    (run closing (n + 2)).flushes = 0 ∧ (run closing (n + 2)).sends.length = 1 := by
  induction n with
  | zero => exact ⟨rfl, rfl, rfl⟩
  | succ n ih =>
    refine ⟨ih.1, ih.2.1, ?_⟩
    show ((run closing (n + 2)).sends.modify 0 Send.turn).length = 1
    rw [List.length_modify]
    exact ih.2.2

/-- The closing run is fair. -/
theorem closing_fair : Fair closing where
  timer n harmed := by
    rcases n with _ | _ | n
    · exact ⟨1, by omega, .inr rfl⟩
    · exact ⟨1, by omega, .inr rfl⟩
    · rw [(closing_run n).1] at harmed
      cases harmed
  flush n hflushes := by
    have hnone : (run closing n).flushes = 0 := by
      rcases n with _ | _ | n
      · rfl
      · rfl
      · exact (closing_run n).2.1
    omega
  send n k s hs _ := by
    have hlength := (List.getElem?_eq_some_iff.1 hs).1
    rcases n with _ | _ | n
    · exact absurd hlength (Nat.not_lt_zero k)
    · exact absurd hlength (Nat.not_lt_zero k)
    · rw [(closing_run n).2.2] at hlength
      obtain rfl : k = 0 := by omega
      exact ⟨n + 2, le_rfl, rfl⟩

/-- The entry of the closing run is delivered. -/
theorem log_conservation_closing :
    ∃ m, ∀ m', m ≤ m' → Delivered 0 (ingest started) (run closing m') :=
  (log_conservation closing).2.2 closing_fair 1 0 started rfl

end VirePortal.Client
