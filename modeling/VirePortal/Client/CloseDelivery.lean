import VirePortal.Client.LogConservation
import VirePortal.Go.Url
import VirePortal.Go.Http

/-!
# What has been sent when `Close` returns

`Close` sends the buffer itself, but the calls of `send` that `flushLocked` started run on their
own, and `Close` does not wait for them. The process ends right after `Close`, so what such a call
has not sent by then is lost (`close_drops`).

A turn of `send` is over when its POST is, so the entries that have been in a POST are those of the
batches, as far as these could be sent at all: `send` goes on to the next batch when one cannot be
encoded, or when the request cannot be made. `close_delivers_iff` says exactly when everything
accepted has been in a POST by the time `Close` returns.
-/

namespace VirePortal.Client

open Go Auth Concurrent

/-- `logIngestRequest`. -/
structure LogIngestRequest where
  source : Str
  entries : List LogIngestEntry

/-- What the store was made with, and its encoder. -/
structure LogTarget where
  baseURL : Str
  serviceID : Str
  /-- `json.Encoder.Encode`, `none` when it returns an error. -/
  encode : LogIngestRequest → Option Str

/-- A POST. -/
structure LogPost where
  url : URL
  header : Header
  body : Str
  deriving DecidableEq

/-- The POST of a batch, `none` when a turn of `send` makes none. -/
def LogTarget.post (target : LogTarget) (batch : List LogIngestEntry) : Option LogPost := do
  let body ← target.encode ⟨"portal", batch⟩
  let url ← URL.parse (target.baseURL ++ "/api/logs/ingest")
  let header := Header.set [] "Content-Type" "application/json"
  return ⟨url, header.set "X-Vire-Service-ID" target.serviceID, body⟩

/-- The `j`-th accepted entry, which is `x`, was in a batch that was sent in a POST, which is
over. -/
def Posted (target : LogTarget) (j : ℕ) (x : LogIngestEntry) (w : World) : Prop :=
  ∃ k i s b l batch, w.sends[k]? = some s ∧ Placed (w.sends.map Send.entries) j k i x ∧
    Placed s.batches i b l x ∧ s.batches[b]? = some batch ∧ (target.post batch).isSome = true

/-- The call of `Close` that locks at the step `n` has returned in the `m`-th state: it has sent
what was in the buffer. -/
def CloseReturned (ls : ℕ → Label) (n m : ℕ) : Prop :=
  ls n = .close ∧ n < m ∧
    (0 < (run ls n).store.buf.length → FinishedAt (run ls n).sends.length (run ls m))

/-- The calls of `send` that were made before `Close` have come to their end, and all that was
accepted was sent in batches that could be. -/
structure Drained (target : LogTarget) (ls : ℕ → Label) (n m : ℕ) : Prop where
  finished : ∀ k < (run ls n).sends.length, FinishedAt k (run ls m)
  sent : ∀ k < (run ls (n + 1)).sends.length, ∀ s, (run ls m).sends[k]? = some s →
    ∀ batch ∈ s.batches, (target.post batch).isSome = true

section

variable {α : Type} {parts : List (List α)} {j k i k' i' : ℕ} {x x' : α}

/-- An entry that is placed is there. -/
theorem Placed.getElem? (h : Placed parts j k i x) : parts.flatten[j]? = some x := by
  induction parts generalizing j k with
  | nil =>
    obtain ⟨part, hpart, -⟩ := h
    cases hpart
  | cons part parts ih =>
    rw [List.flatten_cons]
    cases k with
    | zero =>
      obtain ⟨hx, rfl⟩ := placed_zero.1 h
      rw [List.getElem?_append_left (List.getElem?_eq_some_iff.1 hx).1]
      exact hx
    | succ k =>
      obtain ⟨hj, hrest⟩ := placed_succ.1 h
      rw [List.getElem?_append_right hj]
      exact ih hrest

/-- A position of the concatenation is in one place. -/
theorem Placed.unique (h : Placed parts j k i x) (h' : Placed parts j k' i' x') :
    k = k' ∧ i = i' := by
  obtain rfl : x = x' := Option.some.inj (h.getElem?.symm.trans h'.getElem?)
  have heq : (k, i) = (k', i') := (existsUnique_placed h.getElem?).unique h h'
  exact Prod.mk.inj heq

/-- The `i`-th element of the `k`-th part is somewhere in the concatenation. -/
theorem exists_placed {part : List α} (hk : parts[k]? = some part) (hi : part[i]? = some x) :
    ∃ j, Placed parts j k i x :=
  ⟨_, part, hk, hi, rfl⟩

end

variable {target : LogTarget} {ls : ℕ → Label} {n m : ℕ}

/-- When `Close` has locked, everything accepted before it was handed to `send`. -/
theorem handed_of_close (hclose : ls n = .close) :
    (run ls n).accepted.map ingest = ((run ls (n + 1)).sends.map Send.entries).flatten := by
  have hstep : run ls (n + 1) = (run ls n).step .close := by
    show (run ls n).step (ls n) = _
    rw [hclose]
  have hsent := (run_conserved ls (n + 1)).sent
  rw [hstep] at hsent ⊢
  have hbuf : ((run ls n).step .close).store.buf = [] := rfl
  rw [hbuf, List.append_nil] at hsent
  exact hsent

/-- The calls of `send` that there are when `Close` has locked stay, with their entries. -/
theorem sends_extends (ls : ℕ → Label) (hm : n < m) :
    (run ls (n + 1)).sends.map Send.entries <+: (run ls m).sends.map Send.entries :=
  trace_rel (r := fun w w' : World => w.sends.map Send.entries <+: w'.sends.map Send.entries)
    (fun _ => List.prefix_rfl) List.IsPrefix.trans prefix_step_sends (Nat.succ_le_of_lt hm)

/-- The calls of `send` when `Close` has locked: those before it, and its own if the buffer was not
empty. -/
theorem sends_of_close (hclose : ls n = .close) {k : ℕ} (hk : k < (run ls (n + 1)).sends.length) :
    k < (run ls n).sends.length ∨ k = (run ls n).sends.length ∧
      0 < (run ls n).store.buf.length := by
  have hstep : (run ls (n + 1)).sends = (run ls n).sends ++ World.calls
      (run ls n).store.close.2 := by
    show ((run ls n).step (ls n)).sends = _
    rw [hclose]
    rfl
  rw [hstep, List.length_append] at hk
  by_cases hbuf : 0 < (run ls n).store.buf.length
  · have hown : (World.calls (run ls n).store.close.2).length = 1 := by
      rw [HTTPLogStore.close, if_pos hbuf]
      rfl
    omega
  · have hnone : (World.calls (run ls n).store.close.2).length = 0 := by
      rw [HTTPLogStore.close, if_neg hbuf]
      rfl
    omega

/-- An entry of a call that has come to its end is in a batch of it. -/
theorem posted_of_drained (hreturned : CloseReturned ls n m) (h : Drained target ls n m) {j : ℕ}
    {e : LogEvent} (he : (run ls n).accepted[j]? = some e) :
    Posted target j (ingest e) (run ls m) := by
  obtain ⟨hclose, hm, hown⟩ := hreturned
  have hx : ((run ls (n + 1)).sends.map Send.entries).flatten[j]? = some (ingest e) := by
    rw [← handed_of_close hclose, List.getElem?_map, he]
    rfl
  obtain ⟨⟨k, i⟩, hplaced, -⟩ := existsUnique_placed hx
  obtain ⟨part, hpart, hi, hoffset⟩ := hplaced
  dsimp only at hpart hi hoffset
  have hk : k < (run ls (n + 1)).sends.length := by
    have hlt := (List.getElem?_eq_some_iff.1 hpart).1
    rwa [List.length_map] at hlt
  have hfinished : FinishedAt k (run ls m) := by
    rcases sends_of_close hclose hk with hbefore | ⟨rfl, hbuf⟩
    · exact h.finished k hbefore
    · exact hown hbuf
  obtain ⟨s, hs, hdone⟩ := hfinished
  -- The later state has the same calls with the same entries.
  obtain ⟨more, hmore⟩ := sends_extends ls hm
  have hklen : k < ((run ls (n + 1)).sends.map Send.entries).length := by rwa [List.length_map]
  have hpart' : ((run ls m).sends.map Send.entries)[k]? = some part := by
    rw [← hmore, List.getElem?_append_left hklen]
    exact hpart
  have hplaced' : Placed ((run ls m).sends.map Send.entries) j k i (ingest e) := by
    refine ⟨part, hpart', hi, ?_⟩
    rw [← hmore, List.take_append_of_le_length hklen.le]
    exact hoffset
  -- A call that has come to its end has put all of its entries into batches.
  have hbatches : s.batches.flatten[i]? = some (ingest e) := by
    rw [List.getElem?_map, hs] at hpart'
    rw [((run_conserved ls m).batched s (List.mem_of_getElem? hs)).split, List.take_of_length_le
      hdone, Option.some.inj hpart']
    exact hi
  obtain ⟨⟨b, l⟩, hbatch, -⟩ := existsUnique_placed hbatches
  obtain ⟨batch, hb, -⟩ := id hbatch
  exact ⟨k, i, s, b, l, batch, hs, hplaced', hbatch, hb,
    h.sent k hk s hs batch (List.mem_of_getElem? hb)⟩

/-- Every entry of a call of `send` that there was when `Close` had locked was accepted before. -/
theorem accepted_of_placed (hclose : ls n = .close) (hm : n < m) {j k i : ℕ} {x : LogIngestEntry}
    (hk : k < (run ls (n + 1)).sends.length)
    (h : Placed ((run ls m).sends.map Send.entries) j k i x) :
    ∃ e, (run ls n).accepted[j]? = some e ∧ ingest e = x := by
  obtain ⟨part, hpart, hi, hoffset⟩ := h
  obtain ⟨more, hmore⟩ := sends_extends ls hm
  have hklen : k < ((run ls (n + 1)).sends.map Send.entries).length := by rwa [List.length_map]
  rw [← hmore, List.getElem?_append_left hklen] at hpart
  rw [← hmore, List.take_append_of_le_length hklen.le] at hoffset
  have hplaced : Placed ((run ls (n + 1)).sends.map Send.entries) j k i x :=
    ⟨part, hpart, hi, hoffset⟩
  have hx := hplaced.getElem?
  rw [← handed_of_close hclose, List.getElem?_map] at hx
  exact Option.map_eq_some_iff.1 hx

/-- If all that was accepted was in a POST, an entry of a call is in a batch of that call, which was
sent. -/
theorem batch_of_posted (hclose : ls n = .close) (hm : n < m)
    (h : ∀ j e, (run ls n).accepted[j]? = some e → Posted target j (ingest e) (run ls m)) {k i : ℕ}
    {s : Send} {x : LogIngestEntry} (hk : k < (run ls (n + 1)).sends.length)
    (hs : (run ls m).sends[k]? = some s) (hi : s.entries[i]? = some x) :
    ∃ b l batch, Placed s.batches i b l x ∧ s.batches[b]? = some batch ∧
      (target.post batch).isSome = true := by
  have hpart : ((run ls m).sends.map Send.entries)[k]? = some s.entries := by
    rw [List.getElem?_map, hs]
    rfl
  obtain ⟨j, hplaced⟩ := exists_placed hpart hi
  obtain ⟨e, he, rfl⟩ := accepted_of_placed hclose hm hk hplaced
  obtain ⟨k', i', s', b, l, batch, hs', hplaced', hbatch, hb, hpost⟩ := h j e he
  obtain ⟨rfl, rfl⟩ := hplaced.unique hplaced'
  obtain rfl := Option.some.inj (hs.symm.trans hs')
  exact ⟨b, l, batch, hbatch, hb, hpost⟩

/-- If all that was accepted was in a POST, then the calls of `send` were at their end. -/
theorem drained_of_posted (hreturned : CloseReturned ls n m)
    (h : ∀ j e, (run ls n).accepted[j]? = some e → Posted target j (ingest e) (run ls m)) :
    Drained target ls n m := by
  obtain ⟨hclose, hm, -⟩ := hreturned
  refine ⟨fun k hk => ?_, fun k hk s hs batch hbatch => ?_⟩
  · have hk' : k < (run ls (n + 1)).sends.length := by
      have hle := (prefix_step_sends (run ls n) (ls n)).length_le
      rw [List.length_map, List.length_map] at hle
      exact hk.trans_le hle
    have hkm : k < (run ls m).sends.length := by
      have hle := (sends_extends ls hm).length_le
      rw [List.length_map, List.length_map] at hle
      exact hk'.trans_le hle
    have hs := List.getElem?_eq_getElem hkm
    set s := (run ls m).sends[k]
    have hbatched := (run_conserved ls m).batched s (List.mem_of_getElem? hs)
    refine ⟨s, hs, ?_⟩
    -- The last entry is in a batch, so the loop has passed it.
    have hpos : 0 < s.entries.length := List.length_pos_iff.2 hbatched.nonempty
    have hlast := List.getElem?_eq_getElem (show s.entries.length - 1 < s.entries.length by omega)
    obtain ⟨b, l, batch, hplaced, -⟩ := batch_of_posted hclose hm h hk' hs hlast
    have hlt := (List.getElem?_eq_some_iff.1 hplaced.getElem?).1
    rw [hbatched.split, List.length_take] at hlt
    show s.entries.length ≤ s.i
    omega
  · have hbatched := (run_conserved ls m).batched s (List.mem_of_getElem? hs)
    obtain ⟨b, hb⟩ := List.mem_iff_getElem?.1 hbatch
    -- The first entry of the batch was sent, in this batch.
    obtain ⟨x, rest, rfl⟩ := List.exists_cons_of_ne_nil (hbatched.sizes batch hbatch).1
    obtain ⟨i, hplaced⟩ := exists_placed hb (List.getElem?_cons_zero : (x :: rest)[0]? = some x)
    have hentry : s.entries[i]? = some x := by
      have hx := hplaced.getElem?
      rw [hbatched.split] at hx
      have hlt := (List.getElem?_eq_some_iff.1 hx).1
      rw [List.length_take] at hlt
      rw [List.getElem?_take_of_lt (by omega)] at hx
      exact hx
    obtain ⟨b', l, batch', hplaced', hb', hpost⟩ := batch_of_posted hclose hm h hk hs hentry
    obtain ⟨rfl, -⟩ := hplaced.unique hplaced'
    rw [Option.some.inj (hb.symm.trans hb')]
    exact hpost

/-- When `Close` returns, everything that was accepted before it has been in a POST exactly when the
calls of `send` that were made before it have come to their end and every batch could be sent. -/
theorem close_delivers_iff (target : LogTarget) (ls : ℕ → Label) {n m : ℕ}
    (hreturned : CloseReturned ls n m) :
    (∀ j e, (run ls n).accepted[j]? = some e → Posted target j (ingest e) (run ls m)) ↔
      Drained target ls n m :=
  ⟨drained_of_posted hreturned, fun h _ _ he => posted_of_drained hreturned h he⟩

/-- A target that can encode everything. -/
def sampleTarget : LogTarget where
  baseURL := "http://v"
  serviceID := "service:a"
  encode _ := some []

/-- Every batch can be sent. -/
theorem sampleTarget_post (batch : List LogIngestEntry) : (sampleTarget.post batch).isSome = true :=
  rfl

/-- `timerFlush` has started a call of `send` and another event is in the buffer when the store is
closed, and then both calls make their turns. -/
def draining : ℕ → Label
  | 0 => .store started
  | 1 => .fire
  | 2 => .timerFlush
  | 3 => .store started
  | 4 => .close
  | 5 => .send 0
  | _ => .send 1

/-- `Close` sends what is still in the buffer, and the call that was under way ends before it
returns. -/
theorem close_delivers_iff_draining :
    CloseReturned draining 4 7 ∧ (run draining 4).sends.length = 1 ∧
    Drained sampleTarget draining 4 7 ∧
    ∀ j e, (run draining 4).accepted[j]? = some e → Posted sampleTarget j (ingest e)
      (run draining 7) := by
  have hfinished : (1 : ℕ) ≤ 500 := by decide
  have hreturned : CloseReturned draining 4 7 := ⟨rfl, by decide, fun _ => ⟨_, rfl, hfinished⟩⟩
  have hdrained : Drained sampleTarget draining 4 7 := by
    refine ⟨fun k hk => ?_, fun _ _ _ _ batch _ => sampleTarget_post batch⟩
    obtain rfl : k = 0 := Nat.lt_one_iff.1 hk
    exact ⟨_, rfl, hfinished⟩
  exact ⟨hreturned, rfl, hdrained, (close_delivers_iff sampleTarget draining hreturned).2 hdrained⟩

/-- An event is stored, the timer fires and `timerFlush` starts a call of `send`, and the store is
closed. -/
def dropping : ℕ → Label
  | 0 => .store started
  | 1 => .fire
  | 2 => .timerFlush
  | _ => .close

/-- The buffer is empty, so `Close` returns at once. The call of `send` has not made a turn, and
when the process ends the event is lost. -/
theorem close_drops : CloseReturned dropping 3 4 ∧ (run dropping 3).accepted = [started] ∧
    (∀ s ∈ (run dropping 4).sends, s.batches = []) ∧
    ∀ target, ¬ Posted target 0 (ingest started) (run dropping 4) := by
  have hbatches : ∀ s ∈ (run dropping 4).sends, s.batches = [] := by
    intro s hs
    obtain rfl := List.mem_singleton.1 (show s ∈ [{ entries := [ingest started] }] from hs)
    rfl
  refine ⟨⟨rfl, by decide, fun h => ?_⟩, rfl, hbatches, ?_⟩
  · exact absurd h (Nat.lt_irrefl 0)
  · rintro target ⟨k, i, s, b, l, batch, hs, -, -, hb, -⟩
    rw [hbatches s (List.mem_of_getElem? hs)] at hb
    cases hb

end VirePortal.Client
