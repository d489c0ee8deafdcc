import SeedSync.Lib.Moves
import SeedSync.Scan.Queue
import Mathlib.Data.List.Perm.Basic

/-!
# Publishing while the consumer reads

`_publish_bounded_result` and `pop_results` of `scanner_process.py`, one queue call at a time. The
lock keeps a second producer out; nothing keeps the consumer out, so it can take an item while the
producer holds the others.
-/

open SeedSync.Lib

namespace SeedSync

open QueueItem

/-- Where the producer stands between two calls of the queue. -/
inductive Producer where
  | idle
  | putting (incoming : ScannerResult)
  | draining (incoming : ScannerResult) (retained : List QueueItem)
  /-- The items still to put back. The flag is that one was taken out and the loop goes on. -/
  | restoring (incoming : ScannerResult) (again : Bool) (rest : List QueueItem)
  deriving DecidableEq

/-- The queue of one scanner, its two threads, and the lists that `pop_results` has returned. -/
structure Channel where
  queue : BoundedQueue QueueItem
  producer : Producer := .idle
  /-- The turns of the loop of `pop_results` that are left, and its `results`. -/
  consumer : Option (Nat × List ScannerResult) := none
  returned : List (List ScannerResult) := []

inductive Move where
  | publish (result : ScannerResult)
  | produce
  | pop (maxItems : Nat)
  | consume
  deriving DecidableEq

/-- One step of `_publish_bounded_result`. -/
def producerStep (queue : BoundedQueue QueueItem) : Producer → Option (BoundedQueue QueueItem × Producer)
  | .idle => none
  | .putting incoming =>
    match queue.putNowait (result incoming) with
    | some next => some (next, .idle)
    | none => some (queue, .draining incoming [])
  | .draining incoming retained =>
    match queue.getNowait with
    | some (item, rest) => some (rest, .draining incoming (retained ++ [item]))
    | none =>
      if retained = [] then some (queue, .putting incoming)
      else
        match replacementIndex retained incoming with
        | none => some (queue, .restoring incoming false retained)
        | some dropIndex => some (queue, .restoring incoming true (retained.eraseIdx dropIndex))
  | .restoring incoming again [] => some (queue, if again then .putting incoming else .idle)
  | .restoring incoming again (item :: rest) =>
    match queue.putNowait item with
    | some next => some (next, .restoring incoming again rest)
    | none => some (queue, .idle)

def QueueItem.toResult : QueueItem → List ScannerResult
  | releaseMarker => []
  | result r => [r]

/-- One turn of the loop of `pop_results`. -/
def consumerStep (ch : Channel) (left : Nat) (results : List ScannerResult) : Channel :=
  match left with
  | 0 => { ch with consumer := none, returned := ch.returned ++ [results] }
  | left + 1 =>
    match ch.queue.getNowait with
    | none => { ch with consumer := none, returned := ch.returned ++ [results] }
    | some (item, rest) => { ch with queue := rest, consumer := some (left, results ++ item.toResult) }

def Channel.move (ch : Channel) : Move → Option Channel
  | .publish incoming => if ch.producer = .idle then some { ch with producer := .putting incoming } else none
  | .produce => (producerStep ch.queue ch.producer).map (fun s => { ch with queue := s.1, producer := s.2 })
  | .pop maxItems => if ch.consumer = none then some { ch with consumer := some (maxItems, []) } else none
  | .consume => ch.consumer.map (fun loop => consumerStep ch loop.1 loop.2)

/-- One interleaving of the two threads. -/
def Channel.run (ch : Channel) (moves : List Move) : Option Channel := runMoves Channel.move ch moves

def published (moves : List Move) : List ScannerResult :=
  moves.filterMap (fun move => match move with | .publish r => some r | _ => none)

/-! ## What one step does -/

/-- The steps of the producer, one constructor for each way out of a queue call. -/
inductive Produced (queue : BoundedQueue QueueItem) : Producer → BoundedQueue QueueItem → Producer → Prop where
  | put {next : BoundedQueue QueueItem} {incoming : ScannerResult} (items : next.items = queue.items ++ [result incoming])
      (size : next.maxsize = queue.maxsize) (room : queue.items.length < queue.maxsize) :
      Produced queue (.putting incoming) next .idle
  | full {incoming : ScannerResult} (full : ¬ queue.items.length < queue.maxsize) :
      Produced queue (.putting incoming) queue (.draining incoming [])
  | took {next : BoundedQueue QueueItem} {incoming : ScannerResult} {retained : List QueueItem} {item : QueueItem}
      (items : queue.items = item :: next.items) (size : next.maxsize = queue.maxsize) :
      Produced queue (.draining incoming retained) next (.draining incoming (retained ++ [item]))
  | nothing {incoming : ScannerResult} (empty : queue.items = []) :
      Produced queue (.draining incoming []) queue (.putting incoming)
  | refuse {incoming : ScannerResult} {retained : List QueueItem} (empty : queue.items = [])
      (ordinary : (result incoming).isAuthoritative = false) :
      Produced queue (.draining incoming retained) queue (.restoring incoming false retained)
  | evict {incoming : ScannerResult} {before after : List QueueItem} {item : QueueItem} (empty : queue.items = [])
      (reason : Replaced (before ++ item :: after) incoming item) :
      Produced queue (.draining incoming (before ++ item :: after)) queue (.restoring incoming true (before ++ after))
  | again {incoming : ScannerResult} : Produced queue (.restoring incoming true []) queue (.putting incoming)
  | finished {incoming : ScannerResult} : Produced queue (.restoring incoming false []) queue .idle
  | back {next : BoundedQueue QueueItem} {incoming : ScannerResult} {more : Bool} {item : QueueItem} {rest : List QueueItem}
      (items : next.items = queue.items ++ [item]) (size : next.maxsize = queue.maxsize) :
      Produced queue (.restoring incoming more (item :: rest)) next (.restoring incoming more rest)
  | lost {incoming : ScannerResult} {more : Bool} {item : QueueItem} {rest : List QueueItem}
      (full : ¬ queue.items.length < queue.maxsize) :
      Produced queue (.restoring incoming more (item :: rest)) queue .idle

theorem produced_evict {queue : BoundedQueue QueueItem} {incoming : ScannerResult} {retained before after : List QueueItem}
    {item : QueueItem} (empty : queue.items = []) (split : retained = before ++ item :: after)
    (reason : Replaced retained incoming item) :
    Produced queue (.draining incoming retained) queue (.restoring incoming true (before ++ after)) := by
  subst split
  exact .evict empty reason

theorem produced_of_step {queue next : BoundedQueue QueueItem} {producer producer' : Producer}
    (h : producerStep queue producer = some (next, producer')) : Produced queue producer next producer' := by
  cases producer with
  | idle => simp [producerStep] at h
  | putting incoming =>
    by_cases hroom : queue.items.length < queue.maxsize
    · obtain ⟨put, hput, hsize, hitems⟩ := queue.putNowait_room (result incoming) hroom
      simp only [producerStep, hput, Option.some.injEq, Prod.mk.injEq] at h
      obtain ⟨rfl, rfl⟩ := h
      exact .put hitems hsize hroom
    · simp only [producerStep, BoundedQueue.putNowait_full hroom, Option.some.injEq, Prod.mk.injEq] at h
      obtain ⟨rfl, rfl⟩ := h
      exact .full hroom
  | draining incoming retained =>
    cases hget : queue.getNowait with
    | some got =>
      obtain ⟨hitems, hsize⟩ := BoundedQueue.getNowait_items hget
      simp only [producerStep, hget, Option.some.injEq, Prod.mk.injEq] at h
      obtain ⟨rfl, rfl⟩ := h
      exact .took hitems hsize
    | none =>
      have hempty := BoundedQueue.getNowait_empty hget
      simp only [producerStep, hget] at h
      split_ifs at h with hnil
      · obtain ⟨rfl, rfl⟩ := Prod.mk.inj (Option.some.inj h)
        rw [hnil]
        exact .nothing hempty
      · split at h
        · next hnone =>
          obtain ⟨rfl, rfl⟩ := Prod.mk.inj (Option.some.inj h)
          exact .refuse hempty (replacementIndex_none hnone).1
        · next index hsome =>
          obtain ⟨rfl, rfl⟩ := Prod.mk.inj (Option.some.inj h)
          obtain ⟨item, hitem, hreason⟩ := replacementIndex_some hnil hsome
          obtain ⟨hlt, rfl⟩ := List.getElem?_eq_some_iff.1 hitem
          rw [List.eraseIdx_eq_take_drop_succ]
          refine produced_evict hempty ?_ hreason
          rw [← List.drop_eq_getElem_cons hlt, List.take_append_drop]
  | restoring incoming more rest =>
    cases rest with
    | nil =>
      obtain ⟨rfl, rfl⟩ := Prod.mk.inj (Option.some.inj h)
      cases more
      · exact .finished
      · exact .again
    | cons item rest =>
      by_cases hroom : queue.items.length < queue.maxsize
      · obtain ⟨put, hput, hsize, hitems⟩ := queue.putNowait_room item hroom
        simp only [producerStep, hput, Option.some.injEq, Prod.mk.injEq] at h
        obtain ⟨rfl, rfl⟩ := h
        exact .back hitems hsize
      · simp only [producerStep, BoundedQueue.putNowait_full hroom, Option.some.injEq, Prod.mk.injEq] at h
        obtain ⟨rfl, rfl⟩ := h
        exact .lost hroom

/-- The results that left the queue towards the updater. -/
def Channel.taken (ch : Channel) : List ScannerResult :=
  ch.returned.flatten ++ (ch.consumer.map Prod.snd).getD []

/-- The moves, one constructor for each way out. -/
inductive Moved (ch : Channel) : Move → Channel → Prop where
  | publish {incoming : ScannerResult} (idle : ch.producer = .idle) :
      Moved ch (.publish incoming) { ch with producer := .putting incoming }
  | produce {queue : BoundedQueue QueueItem} {producer : Producer} (step : Produced ch.queue ch.producer queue producer) :
      Moved ch .produce { ch with queue := queue, producer := producer }
  | pop {maxItems : Nat} (idle : ch.consumer = none) : Moved ch (.pop maxItems) { ch with consumer := some (maxItems, []) }
  | took {next : Channel} {item : QueueItem} (items : ch.queue.items = item :: next.queue.items)
      (size : next.queue.maxsize = ch.queue.maxsize) (same : next.producer = ch.producer)
      (taken : next.taken = ch.taken ++ item.toResult) : Moved ch .consume next
  | done {next : Channel} (queue : next.queue = ch.queue) (same : next.producer = ch.producer)
      (taken : next.taken = ch.taken) : Moved ch .consume next

theorem moved_of_move {ch next : Channel} {move : Move} (h : ch.move move = some next) : Moved ch move next := by
  cases move with
  | publish incoming =>
    simp only [Channel.move] at h
    split_ifs at h with hidle
    cases h
    exact .publish hidle
  | produce =>
    obtain ⟨⟨queue, producer⟩, hstep, rfl⟩ := Option.map_eq_some_iff.mp h
    exact .produce (produced_of_step hstep)
  | pop maxItems =>
    simp only [Channel.move] at h
    split_ifs at h with hidle
    cases h
    exact .pop hidle
  | consume =>
    obtain ⟨⟨left, results⟩, hloop, rfl⟩ := Option.map_eq_some_iff.mp h
    have htaken : ch.taken = ch.returned.flatten ++ results := by simp [Channel.taken, hloop]
    cases left with
    | zero => exact .done rfl rfl (by rw [htaken]; simp [consumerStep, Channel.taken])
    | succ left =>
      unfold consumerStep
      dsimp only
      split
      · exact .done rfl rfl (by rw [htaken]; simp [Channel.taken])
      · next item rest hget =>
        obtain ⟨hitems, hsize⟩ := BoundedQueue.getNowait_items hget
        exact .took hitems hsize rfl (by rw [htaken]; simp [Channel.taken])

/-! ## What is where -/

/-- The items in the producer's hands. -/
def Producer.held : Producer → List QueueItem
  | .idle => []
  | .putting incoming => [result incoming]
  | .draining incoming retained => retained ++ [result incoming]
  | .restoring incoming again rest => rest ++ if again then [result incoming] else []

/-- The result that the producer is about. -/
def Producer.incoming : Producer → Option ScannerResult
  | .idle => none
  | .putting r | .draining r _ | .restoring r _ _ => some r

/-- Every result that is not lost. -/
def Channel.content (ch : Channel) : List ScannerResult :=
  ch.taken ++ (ch.queue.items ++ ch.producer.held).flatMap toResult

/-- What is put back fits: nobody else puts, and the consumer only makes room. -/
def Fits (queue : BoundedQueue QueueItem) : Producer → Prop
  | .idle | .putting _ => True
  | .draining _ retained => queue.items.length + retained.length ≤ queue.maxsize
  | .restoring _ again rest => queue.items.length + rest.length + (if again then 1 else 0) ≤ queue.maxsize

/-- The steps that the producer has left, at most. -/
def budget (queue : BoundedQueue QueueItem) : Producer → Nat
  | .idle => 0
  | .putting _ => if queue.items.length < queue.maxsize then 1 else 2 * queue.maxsize + 4
  | .draining _ retained => 2 * queue.items.length + retained.length + 3
  | .restoring _ _ rest => rest.length + 2

section
variable {queue queue' : BoundedQueue QueueItem} {producer producer' : Producer}

theorem Produced.fits (h : Produced queue producer queue' producer') (hf : Fits queue producer) :
    Fits queue' producer' := by
  have hb := queue.bounded
  cases h <;> simp only [Fits, List.length_append, List.length_cons, List.length_nil] at hf ⊢ <;>
    simp_all <;> omega

theorem Produced.size (h : Produced queue producer queue' producer') : queue'.maxsize = queue.maxsize := by
  cases h <;> first | assumption | rfl

/-- Every step of the producer uses up some of its budget. -/
theorem Produced.budget (h : Produced queue producer queue' producer') (hf : Fits queue producer) :
    budget queue' producer' + 1 ≤ budget queue producer := by
  have hb := queue.bounded
  have hp := queue.positive
  cases h with
  | put items size room => simp [SeedSync.budget, room]
  | full full => simp [SeedSync.budget, full]; omega
  | took items size => simp [SeedSync.budget, items]; omega
  | nothing empty => simp [SeedSync.budget, empty, hp]
  | refuse empty ordinary => simp [SeedSync.budget]
  | evict empty reason => simp [SeedSync.budget]; omega
  | again =>
    have hroom : queue.items.length + 1 ≤ queue.maxsize := by simpa [Fits] using hf
    simp [SeedSync.budget, Nat.lt_of_succ_le hroom]
  | finished => simp [SeedSync.budget]
  | back items size => simp [SeedSync.budget]
  | lost full => simp [SeedSync.budget]

theorem mem_flatMap_toResult {r : ScannerResult} {items : List QueueItem} :
    r ∈ items.flatMap toResult ↔ result r ∈ items := by
  rw [List.mem_flatMap]
  constructor
  · rintro ⟨item, hmem, hr⟩
    cases item with
    | releaseMarker => simp [toResult] at hr
    | result r' => rw [List.mem_singleton.mp hr]; exact hmem
  · intro h
    exact ⟨result r, h, List.mem_singleton.mpr rfl⟩

/-- A step makes nothing up and doubles nothing. -/
theorem Produced.content (h : Produced queue producer queue' producer') :
    ∃ lost, ((queue'.items ++ producer'.held) ++ lost).Perm (queue.items ++ producer.held) := by
  cases h with
  | put items size room => exact ⟨[], by simp [Producer.held, items]⟩
  | full full => exact ⟨[], by simp [Producer.held]⟩
  | @took next incoming retained item items size =>
    refine ⟨[], ?_⟩
    simp only [Producer.held, items, List.append_nil, List.append_assoc, List.cons_append, List.nil_append]
    rw [← List.append_assoc, ← List.append_assoc]
    exact List.perm_middle
  | nothing empty => exact ⟨[], by simp [Producer.held]⟩
  | @refuse incoming retained empty ordinary => exact ⟨[result incoming], by simp [Producer.held]⟩
  | @evict incoming before after item empty reason =>
    refine ⟨[item], ?_⟩
    simp only [Producer.held, empty, List.nil_append, List.append_assoc, if_true, List.cons_append]
    have hlast : after ++ [result incoming, item] = (after ++ [result incoming]) ++ [item] := by simp
    rw [hlast]
    exact (List.perm_append_singleton item _).append_left before
  | again => exact ⟨[], by simp [Producer.held]⟩
  | finished => exact ⟨[], by simp [Producer.held]⟩
  | back items size => exact ⟨[], by simp [Producer.held, items]⟩
  | @lost incoming more item rest full =>
    exact ⟨item :: (rest ++ if more then [result incoming] else []), by simp [Producer.held]⟩

theorem Produced.incoming (h : Produced queue producer queue' producer') {r : ScannerResult}
    (hr : producer'.incoming = some r) : producer.incoming = some r := by
  cases h <;> simp_all [Producer.incoming]

/-- An authoritative result stays while the producer works for it or for ordinary ones. -/
theorem Produced.keeps (h : Produced queue producer queue' producer') (hf : Fits queue producer) {r : ScannerResult}
    (hr : (result r).isAuthoritative)
    (hin : ∀ incoming, producer.incoming = some incoming → incoming = r ∨ (result incoming).isAuthoritative = false)
    (hmem : result r ∈ queue.items ++ producer.held) : result r ∈ queue'.items ++ producer'.held := by
  have hb := queue.bounded
  cases h with
  | put items size room => simpa [Producer.held, items] using hmem
  | full full => simpa [Producer.held] using hmem
  | took items size =>
    simp only [Producer.held, items, List.mem_append, List.mem_cons, List.not_mem_nil, or_false] at hmem ⊢
    tauto
  | nothing empty => simpa [Producer.held] using hmem
  | refuse empty ordinary =>
    simp only [Producer.held, empty, List.mem_append, List.mem_cons, List.not_mem_nil, or_false, false_or] at hmem ⊢
    rcases hmem with hmem | heq
    · simpa using hmem
    · rw [heq] at hr
      rw [hr] at ordinary
      cases ordinary
  | @evict incoming before after item empty reason =>
    rcases hin incoming rfl with rfl | hordinary
    · simp [Producer.held]
    · simp only [Producer.held, empty, List.mem_append, List.mem_cons, List.not_mem_nil, or_false, false_or] at hmem ⊢
      rcases hmem with (hmem | rfl | hmem) | heq
      · exact Or.inl (Or.inl hmem)
      · rw [(reason.authoritative hr).1] at hordinary
        cases hordinary
      · exact Or.inl (Or.inr hmem)
      · exact Or.inr (by simp [heq])
  | again => simpa [Producer.held] using hmem
  | finished => simpa [Producer.held] using hmem
  | back items size => simpa [Producer.held, items] using hmem
  | lost full =>
    simp only [Fits, List.length_cons] at hf
    omega

end

/-! ## One move -/

section
variable {ch next : Channel} {move : Move}

theorem Moved.fits (h : Moved ch move next) (hf : Fits ch.queue ch.producer) : Fits next.queue next.producer := by
  cases h with
  | publish idle => trivial
  | pop idle => exact hf
  | produce step => exact step.fits hf
  | took items size same taken =>
    rw [same]
    cases hp : ch.producer <;> simp only [hp, Fits, items, size, List.length_cons] at hf ⊢ <;> omega
  | done queue same taken => rw [same, queue]; exact hf

theorem Moved.size (h : Moved ch move next) : next.queue.maxsize = ch.queue.maxsize := by
  cases h with
  | produce step => exact step.size
  | took items size same taken => exact size
  | done queue same taken => rw [queue]
  | publish idle => rfl
  | pop idle => rfl

/-- The consumer never gives the producer more to do. -/
theorem Moved.budget (h : Moved ch move next) (hf : Fits ch.queue ch.producer) (hpublish : ∀ r, move ≠ .publish r) :
    budget next.queue next.producer + (if move = .produce then 1 else 0) ≤ budget ch.queue ch.producer := by
  cases h with
  | publish idle => exact absurd rfl (hpublish _)
  | pop idle => simp
  | produce step => simpa using step.budget hf
  | took items size same taken =>
    have hb := ch.queue.bounded
    rw [same]
    cases hp : ch.producer <;>
      simp only [SeedSync.budget, items, size, List.length_cons, reduceCtorEq, if_false] at hb ⊢ <;> try omega
    split_ifs <;> omega
  | done queue same taken => rw [same, queue]; simp

/-- The results that a move brings in. -/
def Move.brings : Move → List ScannerResult
  | .publish r => [r]
  | _ => []

/-- Up to their order the results stay the same, less those that were lost. -/
theorem Moved.content (h : Moved ch move next) :
    ∃ lost, (next.content ++ lost).Perm (ch.content ++ move.brings) := by
  cases h with
  | publish idle => exact ⟨[], by simp [Channel.content, Channel.taken, idle, Producer.held, toResult, Move.brings]⟩
  | pop idle => exact ⟨[], by simp [Channel.content, Channel.taken, idle, Move.brings]⟩
  | produce step =>
    obtain ⟨lost, hperm⟩ := step.content
    refine ⟨lost.flatMap toResult, ?_⟩
    have := (hperm.flatMap_right toResult).append_left ch.taken
    rw [List.flatMap_append, ← List.append_assoc] at this
    simpa [Channel.content, Channel.taken, Move.brings] using this
  | took items size same taken =>
    exact ⟨[], by simp [Channel.content, taken, same, items, Move.brings]⟩
  | done queue same taken => exact ⟨[], by simp [Channel.content, taken, same, queue, Move.brings]⟩

/-- The result is not lost, and the producer is busy with nothing that could displace it. -/
def Safe (r : ScannerResult) (ch : Channel) : Prop :=
  r ∈ ch.content ∧ ∀ incoming, ch.producer.incoming = some incoming →
    incoming = r ∨ (result incoming).isAuthoritative = false

theorem mem_content {r : ScannerResult} :
    r ∈ ch.content ↔ r ∈ ch.taken ∨ result r ∈ ch.queue.items ++ ch.producer.held := by
  rw [Channel.content, List.mem_append, mem_flatMap_toResult]

theorem Moved.safe {r : ScannerResult} (h : Moved ch move next) (hf : Fits ch.queue ch.producer)
    (hr : (result r).isAuthoritative) (hpublish : ∀ r', move = .publish r' → (result r').isAuthoritative = false)
    (hs : Safe r ch) : Safe r next := by
  obtain ⟨hmem, hin⟩ := hs
  cases h with
  | publish idle =>
    refine ⟨?_, ?_⟩
    · rw [mem_content] at hmem ⊢
      refine hmem.imp id (fun hq => ?_)
      simpa [idle, Producer.held] using Or.inl hq
    · intro incoming h
      rw [← Option.some.inj h]
      exact Or.inr (hpublish _ rfl)
  | pop idle =>
    rw [mem_content] at hmem
    exact ⟨mem_content.mpr (hmem.imp (by simp [Channel.taken, idle]) id), hin⟩
  | produce step =>
    refine ⟨?_, fun incoming h => hin incoming (step.incoming h)⟩
    rw [mem_content] at hmem ⊢
    exact hmem.imp id (step.keeps hf hr hin)
  | took items size same taken =>
    refine ⟨?_, by rw [same]; exact hin⟩
    rw [mem_content, items] at hmem
    rw [mem_content, taken, same, List.mem_append]
    rcases hmem with hmem | hmem
    · exact Or.inl (Or.inl hmem)
    · rcases List.mem_cons.mp hmem with rfl | hmem
      · exact Or.inl (Or.inr (List.mem_singleton.mpr rfl))
      · exact Or.inr hmem
  | done queue same taken =>
    rw [mem_content] at hmem
    refine ⟨?_, by rw [same]; exact hin⟩
    rw [mem_content, taken, same, queue]
    exact hmem

end

/-! ## Runs -/

section
variable {start ch : Channel} {moves : List Move}

theorem run_fits (h : start.run moves = some ch) (hf : Fits start.queue start.producer) :
    Fits ch.queue ch.producer ∧ ch.queue.maxsize = start.queue.maxsize :=
  runMoves_invariant (fun c : Channel => Fits c.queue c.producer ∧ c.queue.maxsize = start.queue.maxsize) h
    (fun _ _ _ _ hc hmove => ⟨(moved_of_move hmove).fits hc.1, (moved_of_move hmove).size.trans hc.2⟩) ⟨hf, rfl⟩

theorem published_cons (move : Move) (moves : List Move) : published (move :: moves) = move.brings ++ published moves := by
  cases move <;> rfl

theorem run_content (h : start.run moves = some ch) :
    ∃ lost, (ch.content ++ lost).Perm (start.content ++ published moves) := by
  induction moves generalizing start with
  | nil => cases h; exact ⟨[], by simp [published]⟩
  | cons move moves ih =>
    obtain ⟨mid, hmove, hrest⟩ := runMoves_cons h
    obtain ⟨later, hlater⟩ := ih hrest
    obtain ⟨now, hnow⟩ := (moved_of_move hmove).content
    refine ⟨later ++ now, ?_⟩
    rw [published_cons, ← List.append_assoc, ← List.append_assoc]
    refine (hlater.append_right now).trans ?_
    rw [List.append_assoc]
    refine (List.perm_append_comm.append_left mid.content).trans ?_
    rw [← List.append_assoc]
    exact hnow.append_right (published moves)

theorem run_safe {r : ScannerResult} (h : start.run moves = some ch) (hf : Fits start.queue start.producer)
    (hr : (result r).isAuthoritative) (hafter : ∀ r' ∈ published moves, (result r').isAuthoritative = false)
    (hs : Safe r start) : Safe r ch := by
  refine (runMoves_invariant (fun c : Channel => Fits c.queue c.producer ∧ Safe r c) h ?_ ⟨hf, hs⟩).2
  intro s t move hmem hc hmove
  refine ⟨(moved_of_move hmove).fits hc.1, (moved_of_move hmove).safe hc.1 hr ?_ hc.2⟩
  rintro r' rfl
  exact hafter r' (List.mem_filterMap.mpr ⟨_, hmem, rfl⟩)

/-- The state right after a publication has begun. -/
theorem run_publish {before after : List Move} {r : ScannerResult}
    (h : start.run (before ++ .publish r :: after) = some ch) (hf : Fits start.queue start.producer) :
    ∃ mid : Channel, mid.producer = .putting r ∧ mid.queue.maxsize = start.queue.maxsize ∧ mid.run after = some ch := by
  obtain ⟨mid, hbefore, hafter⟩ := runMoves_append h
  obtain ⟨next, hmove, hrest⟩ := runMoves_cons hafter
  have hsize := (run_fits hbefore hf).2
  refine ⟨next, ?_, ((moved_of_move hmove).size).trans hsize, hrest⟩
  cases moved_of_move hmove with
  | publish idle => rfl

theorem run_budget (h : start.run moves = some ch) (hf : Fits start.queue start.producer) (hnone : published moves = []) :
    moves.count .produce ≤ budget start.queue start.producer := by
  have hcount := runMoves_budget (fun c : Channel => Fits c.queue c.producer) (fun c => budget c.queue c.producer)
    (fun move => decide (move = .produce)) h (fun s t move hmem hc hmove =>
      ⟨(moved_of_move hmove).fits hc, by
        have hpublish : ∀ r, move ≠ .publish r := by
          rintro r rfl
          have : r ∈ published moves := List.mem_filterMap.mpr ⟨_, hmem, rfl⟩
          rw [hnone] at this
          cases this
        simpa using (moved_of_move hmove).budget hc hpublish⟩) hf
  have hsame : moves.count .produce = moves.countP (fun move => decide (move = .produce)) := by
    unfold List.count
    congr 1
  omega

end

/-- Whatever the consumer takes, and whenever: what is delivered or still under way was published, each
result once; an item is never lost on its way back; an authoritative result is lost to a later
authoritative one only; and a publication ends after a bounded number of its own steps. -/
theorem publication_interleaved (start ch : Channel) (moves : List Move) (hstart : start.producer = .idle)
    (hrun : start.run moves = some ch) :
    (∃ lost, (ch.content ++ lost).Perm (start.content ++ published moves)) ∧
    (∀ incoming again item rest, ch.producer = .restoring incoming again (item :: rest) →
      (ch.queue.putNowait item).isSome) ∧
    ∀ before r after, moves = before ++ .publish r :: after →
      ((result r).isAuthoritative → (∀ r' ∈ published after, (result r').isAuthoritative = false) → r ∈ ch.content) ∧
      (published after = [] → after.count .produce ≤ 2 * start.queue.maxsize + 4) := by
  have hf : Fits start.queue start.producer := by rw [hstart]; trivial
  refine ⟨run_content hrun, ?_, ?_⟩
  · intro incoming again item rest hp
    have hfits := (run_fits hrun hf).1
    simp only [hp, Fits, List.length_cons] at hfits
    obtain ⟨next, hput, -⟩ := ch.queue.putNowait_room item (by omega)
    rw [hput]
    exact Option.isSome_some
  · rintro before r after rfl
    obtain ⟨mid, hmid, hsize, hrest⟩ := run_publish hrun hf
    have hfmid : Fits mid.queue mid.producer := by rw [hmid]; trivial
    constructor
    · intro hr hafter
      refine (run_safe hrest hfmid hr hafter ⟨?_, ?_⟩).1
      · rw [mem_content, hmid]
        exact Or.inr (by simp [Producer.held])
      · rw [hmid]
        rintro incoming h
        exact Or.inl (Option.some.inj h).symm
    · intro hnone
      have := run_budget hrest hfmid hnone
      rw [hmid] at this
      have hp := start.queue.positive
      simp only [budget, hsize] at this
      split_ifs at this <;> omega

/-- Progress of a generation, and the result that ends it. -/
def progressOf (generation : Int) : ScannerResult :=
  { files := [], generation, isProgress := true, isScanFinal := false }

def resultOf (generation : Int) : ScannerResult := { files := [], generation }

/-- The consumer takes the second item while the producer holds the first, which is then lost. -/
def overtaking : List Move :=
  [.publish (resultOf 3), .produce, .produce, .pop 1, .consume, .consume, .produce, .produce, .produce]

theorem publication_interleaved_overtaken :
    let start : Channel := { queue := ⟨2, [.result (progressOf 1), .result (progressOf 2)], by decide, by decide⟩ }
    ∃ ch, start.run overtaking = some ch ∧ ch.returned = [[progressOf 2]] ∧
      ch.queue.items = [.result (resultOf 3)] ∧ resultOf 3 ∈ ch.content := by
  intro start
  refine ⟨(start.run overtaking).getD start, rfl, rfl, rfl, ?_⟩
  exact ((publication_interleaved start _ overtaking rfl rfl).2.2 [] (resultOf 3) _ rfl).1 rfl (by decide)

end SeedSync
