import Mathlib.Data.List.Induction
import Thubo.Pipeline.Reassembly

/-!
# Runs of the receiver on what the sender emits

A sequence of calls pushes batches that the sender has emitted and asks for
messages in between.  When some of the batches are missing, the messages
returned for a priority are some of those it has completed, in order.  When
none is missing and no ring is full, they are all of them.
-/

namespace Thubo
namespace Rx

open Tx (Sent Partial Counters Bounded Emit Emits encodeMessage)

variable {bytes : Bytes} {defrag : Defragmentation} {fragMaxSize : Nat}
variable {p : Priority} {after : Counters} {next : Option Partial}
variable {batch : Sent} {more : List (List UInt8)}

/-! ## Batches fed by a sequence of calls -/

/-- The batches of one priority. -/
def batchesAt (p : Priority) (fed : List Sent) : List Sent :=
  fed.filter fun batch => batch.qos.priority = p

theorem batchesAt_concat_same (fed : List Sent) (batch : Sent) :
    batchesAt batch.qos.priority (fed ++ [batch]) =
      batchesAt batch.qos.priority fed ++ [batch] := by
  simp [batchesAt]

theorem batchesAt_concat_other (fed : List Sent) {batch : Sent}
    {p : Priority} (distinct : p ≠ batch.qos.priority) :
    batchesAt p (fed ++ [batch]) = batchesAt p fed := by
  simp [batchesAt, Ne.symm distinct]

/-- The last push of a sequence feeds the last batch. -/
theorem pushed_concat_push {calls : List Pipeline.Call} {chunk : Chunk}
    {timer : Timer} {fed : List Sent}
    (same : Pipeline.pushed (calls ++ [.push chunk timer]) =
      fed.map Sent.image) :
    ∃ before batch, fed = before ++ [batch] ∧
      Pipeline.pushed calls = before.map Sent.image ∧
      chunk.asSlice = batch.image := by
  have split : Pipeline.pushed calls ++ [chunk.asSlice] =
      fed.map Sent.image := by
    rw [← same]
    simp [Pipeline.pushed]
  rcases List.eq_nil_or_concat fed with rfl | ⟨before, batch, rfl⟩
  · simp at split
  · rw [List.concat_eq_append, List.map_append, List.map_singleton] at split
    rcases List.append_inj' split rfl with ⟨front, last⟩
    exact ⟨before, batch, List.concat_eq_append .., front,
      List.singleton_inj.1 last⟩

/-- What a batch carries is never empty. -/
theorem noEmptyChunk_image {chunk : Chunk}
    (content : chunk.asSlice = batch.image) :
    (Bytes.single chunk).NoEmptyChunk := by
  apply Bytes.noEmptyChunk_single
  rw [← chunk.length_asSlice, content]
  exact batch.length_image_pos

theorem pushed_concat_tryPull (calls : List Pipeline.Call) :
    Pipeline.pushed (calls ++ [.tryPull]) = Pipeline.pushed calls := by
  simp [Pipeline.pushed]

/-! ## When some of the batches are fed -/

/-- The state after calls that feed some of the batches emitted. -/
structure Survived (state : Pipeline) (got : List (Bytes × QoS))
    (counters : Priority → Counters)
    (messages : Priority → List (List UInt8))
    (unfinished : Priority → Option Partial)
    (pending : Priority → List (List (List UInt8))) : Prop where
  sound : state.defrag.Sound
  holds : state.Pending pending
  lagging : ∀ p, Lagging p state.defrag (counters p) (unfinished p)
  sublist : ∀ p,
    (returned p got ++ (pending p).flatten).Sublist (messages p)

variable {state : Pipeline} {got : List (Bytes × QoS)}
variable {pending : Priority → List (List (List UInt8))}

/-- A pull returns nothing that was not queued. -/
theorem survived_tryPull {counters : Priority → Counters}
    {messages : Priority → List (List UInt8)}
    {unfinished : Priority → Option Partial}
    (survived : Survived state got counters messages unfinished pending) :
    ∃ result after left, state.tryPull = .ok (result, after) ∧
      Survived after (got ++ result.toList) counters messages unfinished
        left := by
  rcases Pipeline.tryPull_pulls survived.holds with
    ⟨result, after, left, lost, run, pulls⟩
  refine ⟨result, after, left, run, ?_, pulls.holds, ?_, fun q => ?_⟩
  · rw [pulls.defrag_eq]
    exact survived.sound
  · rw [pulls.defrag_eq]
    exact survived.lagging
  · refine List.Sublist.trans ?_ (survived.sublist q)
    rw [returned_append, pulls.split q, List.append_assoc]
    exact (List.Sublist.refl _).append (List.sublist_append_right _ _)

/-- A push brings what is left of its batch after earlier losses. -/
theorem survived_push (fragMaxSize : Nat)
    {counters : Priority → Counters}
    {messages : Priority → List (List UInt8)}
    {unfinished : Priority → Option Partial}
    (survived : Survived state got counters messages unfinished pending)
    (emit : Emit p (counters p) (unfinished p) batch after more next)
    (at_ : ∀ part, unfinished p = some part → part.At p)
    (bounded : Bounded after) (solid : bytes.NoEmptyChunk)
    (content : bytes.toVec = batch.image) (timer : Timer) :
    ∃ result later left,
      state.push bytes fragMaxSize timer = .ok (result, later) ∧
        Survived later got (Priority.update counters p after)
          (Priority.update messages p (messages p ++ more))
          (Priority.update unfinished p next) left := by
  rcases emit_lagging emit at_ solid content survived.sound
      (survived.lagging p) bounded with
    ⟨decoded, defrag, brought, received, fewer, brings, lagging⟩
  rcases Pipeline.push_pushes survived.holds received.run brings timer with
    ⟨result, later, left, run, pushes, _⟩
  refine ⟨result, later, left, run, ?_, pushes.holds, fun q => ?_,
    fun q => ?_⟩
  · rw [pushes.defrag_eq]
    exact received.sound
  · simp only [pushes.defrag_eq, Priority.update_apply]
    split
    · rename_i same
      rw [same]
      exact lagging
    · rename_i distinct
      intro cc
      rw [received.others ⟨cc, q⟩ distinct]
      exact survived.lagging q cc
  · have fewerLeft := pushes.sublist q
    have before := survived.sublist q
    rw [Priority.update_apply]
    split
    · rename_i same
      cases same
      rw [if_pos rfl] at fewerLeft
      have joined := before.append fewer
      rw [List.append_assoc] at joined
      exact ((List.Sublist.refl _).append fewerLeft).trans joined
    · rename_i distinct
      rw [if_neg distinct, List.append_nil] at fewerLeft
      exact ((List.Sublist.refl _).append fewerLeft).trans before

/-- The batches emitted after those that have been fed. -/
theorem emits_take {front tail : List Sent} {counters : Counters}
    {messages : List (List UInt8)} {unfinished : Option Partial}
    (emits : Emits p (front ++ tail) counters messages unfinished)
    (bounded : Bounded counters) :
    ∃ earlier fewer part, Emits p front earlier fewer part ∧
      Bounded earlier ∧ fewer.Sublist messages ∧
      ∀ defrag, Lagging p defrag earlier part →
        Lagging p defrag counters unfinished := by
  induction tail using List.reverseRecOn
    generalizing counters messages unfinished with
  | nil =>
      rw [List.append_nil] at emits
      exact ⟨_, _, _, emits, bounded, List.Sublist.refl _,
        fun _ lagging => lagging⟩
  | append_singleton tail batch hypothesis =>
      rw [← List.append_assoc] at emits
      rcases emits.concat_cases with
        ⟨middle, most, between, more, before, last, rfl⟩
      rcases hypothesis before (bounded.before last) with
        ⟨earlier, fewer, part, kept, earlierBounded, sublist, lags⟩
      exact ⟨earlier, fewer, part, kept, earlierBounded,
        sublist.trans (List.sublist_append_left _ _),
        fun defrag lagging => lagging_missed last (lags defrag lagging)⟩

/-- Some of the batches that a priority emits. -/
structure Covers (p : Priority) (fed : List Sent) (counters : Counters)
    (messages : List (List UInt8)) (unfinished : Option Partial) : Prop where
  bounded : Bounded counters
  emitted : ∃ sent, Emits p sent counters messages unfinished ∧
    (batchesAt p fed).Sublist sent

/-- The last batch fed and those emitted before and after it. -/
theorem Covers.concat_cases {fed : List Sent} {batch : Sent}
    {counters : Counters} {messages : List (List UInt8)}
    {unfinished : Option Partial}
    (covers : Covers batch.qos.priority (fed ++ [batch]) counters messages
      unfinished) :
    ∃ before front part after more next,
      Covers batch.qos.priority fed before front part ∧
        Emit batch.qos.priority before part batch after more next ∧
        (∀ part', part = some part' → part'.At batch.qos.priority) ∧
        Bounded after ∧ (front ++ more).Sublist messages ∧
        ∀ defrag, Lagging batch.qos.priority defrag after next →
          Lagging batch.qos.priority defrag counters unfinished := by
  rcases covers.emitted with ⟨sent, emits, sublist⟩
  rw [batchesAt_concat_same, List.append_sublist_iff] at sublist
  rcases sublist with ⟨left, right, rfl, fedLeft, fedRight⟩
  rcases List.append_of_mem (List.singleton_sublist.1 fedRight) with
    ⟨skipped, tail, rfl⟩
  have whole : left ++ (skipped ++ batch :: tail) =
      (left ++ skipped ++ [batch]) ++ tail := by simp
  rw [whole] at emits
  rcases emits_take emits covers.bounded with
    ⟨after, fewer, next, emitted, bounded, less, lags⟩
  rcases emitted.concat_cases with
    ⟨before, front, part, more, earlier, last, rfl⟩
  exact ⟨before, front, part, after, more, next,
    ⟨bounded.before last, _, earlier,
      fedLeft.trans (List.sublist_append_left _ _)⟩,
    last, earlier.unfinished_at, bounded, less, lags⟩

/-- The calls that feed some of the batches emitted all succeed. -/
theorem serve_survived {capacity : Nat} {calls : List Pipeline.Call}
    {fed : List Sent}
    (same : Pipeline.pushed calls = fed.map Sent.image)
    {counters : Priority → Counters}
    {messages : Priority → List (List UInt8)}
    {unfinished : Priority → Option Partial}
    (covers : ∀ p, Covers p fed (counters p) (messages p) (unfinished p)) :
    ∃ got state pending,
      Pipeline.serve fragMaxSize (.new capacity) calls = .ok (got, state) ∧
        Survived state got counters messages unfinished pending := by
  induction calls using List.reverseRecOn
    generalizing fed counters messages unfinished with
  | nil =>
      refine ⟨[], .new capacity, _, rfl, ?_, Pipeline.pending_new capacity,
        fun p => ?_, fun p => List.nil_sublist _⟩
      · exact (Pipeline.sound_new capacity).buffers
      · rcases (covers p).emitted with ⟨sent, emits, _⟩
        have whole : Emits p ([] ++ sent) _ _ _ := emits
        rcases emits_take whole (covers p).bounded with
          ⟨earlier, fewer, part, emitted, _, _, lags⟩
        rcases emitted.nil_cases with ⟨rfl, rfl, rfl⟩
        exact lags _ (lagging_new p)
  | append_singleton calls next hypothesis =>
      cases next with
      | tryPull =>
          rw [pushed_concat_tryPull] at same
          rcases hypothesis same covers with
            ⟨got, state, pending, served, survived⟩
          rcases survived_tryPull survived with
            ⟨result, after, left, run, kept⟩
          exact ⟨_, after, left, Pipeline.serve_concat served run, kept⟩
      | push chunk timer =>
          rcases pushed_concat_push same with
            ⟨before, batch, rfl, sameBefore, content⟩
          rcases (covers batch.qos.priority).concat_cases with
            ⟨earlier, front, part, after, more, next, coversBefore, emit,
              at_, bounded, less, lags⟩
          have coversAll : ∀ p, Covers p before
              (Priority.update counters batch.qos.priority earlier p)
              (Priority.update messages batch.qos.priority front p)
              (Priority.update unfinished batch.qos.priority part p) := by
            intro p
            simp only [Priority.update_apply]
            split
            · rename_i own
              rw [own]
              exact coversBefore
            · rename_i distinct
              rcases (covers p).emitted with ⟨sent, emits, sublist⟩
              rw [batchesAt_concat_other before distinct] at sublist
              exact ⟨(covers p).bounded, sent, emits, sublist⟩
          rcases hypothesis sameBefore coversAll with
            ⟨got, state, pending, served, survived⟩
          have emitHere : Emit batch.qos.priority
              (Priority.update counters batch.qos.priority earlier
                batch.qos.priority)
              (Priority.update unfinished batch.qos.priority part
                batch.qos.priority) batch after more next := by
            rwa [Priority.update_same, Priority.update_same]
          have atHere : ∀ part', Priority.update unfinished
              batch.qos.priority part batch.qos.priority = some part' →
                part'.At batch.qos.priority := by
            rwa [Priority.update_same]
          rcases survived_push fragMaxSize survived emitHere atHere bounded
              (noEmptyChunk_image content)
              (by rw [Bytes.toVec_single, content]) timer with
            ⟨result, later, left, run, kept⟩
          have answered : state.answer fragMaxSize (.push chunk timer) =
              .ok (none, later) := by
            simp only [Pipeline.answer, run, ok_bind]
            rfl
          have all := Pipeline.serve_concat served answered
          rw [Option.toList_none, List.append_nil] at all
          refine ⟨got, later, left, all, ?_⟩
          refine ⟨kept.sound, kept.holds, fun p => ?_, fun p => ?_⟩
          · have lagging := kept.lagging p
            by_cases own : p = batch.qos.priority
            · cases own
              rw [Priority.update_same, Priority.update_same] at lagging
              exact lags _ lagging
            · simpa only [Priority.update_other _ own] using lagging
          · have sublist := kept.sublist p
            by_cases own : p = batch.qos.priority
            · cases own
              rw [Priority.update_same, Priority.update_same] at sublist
              exact sublist.trans less
            · simpa only [Priority.update_other _ own] using sublist

/-! ## When all batches are fed -/

/-- The state after calls that feed every batch emitted. -/
structure Complete (fragMaxSize : Nat) (state : Pipeline)
    (got : List (Bytes × QoS)) (counters : Priority → Counters)
    (messages : Priority → List (List UInt8))
    (unfinished : Priority → Option Partial)
    (pending : Priority → List (List (List UInt8))) : Prop where
  sound : state.defrag.Sound
  holds : state.Pending pending
  free : state.Uncongested
  synced : ∀ p,
    Synced fragMaxSize state.defrag (counters p) (unfinished p)
  exactly : ∀ p,
    returned p got ++ (pending p).flatten = messages p

/-- A pull returns the first message of some priority. -/
theorem complete_tryPull {counters : Priority → Counters}
    {messages : Priority → List (List UInt8)}
    {unfinished : Priority → Option Partial}
    (complete : Complete fragMaxSize state got counters messages unfinished
      pending) :
    ∃ result after left, state.tryPull = .ok (result, after) ∧
      Complete fragMaxSize after (got ++ result.toList) counters messages
        unfinished left ∧
      (result = none → ∀ p, (left p).flatten = []) := by
  rcases Pipeline.tryPull_pulls complete.holds with
    ⟨result, after, left, lost, run, pulls⟩
  rcases pulls.free complete.free with ⟨free, nothing⟩
  refine ⟨result, after, left, run,
    ⟨?_, pulls.holds, free, ?_, fun q => ?_⟩, pulls.drained⟩
  · rw [pulls.defrag_eq]
    exact complete.sound
  · rw [pulls.defrag_eq]
    exact complete.synced
  · rw [← complete.exactly q, returned_append, pulls.split q, nothing q,
      List.nil_append, List.append_assoc]

/-- A push with room brings all of its batch. -/
theorem complete_push {counters : Priority → Counters}
    {messages : Priority → List (List UInt8)}
    {unfinished : Priority → Option Partial}
    (complete : Complete fragMaxSize state got counters messages unfinished
      pending)
    (emit : Emit p (counters p) (unfinished p) batch after more next)
    (at_ : ∀ q part, unfinished q = some part → part.At q)
    (limit : ∀ message ∈ more,
      (encodeMessage message).length ≤ fragMaxSize)
    (solid : bytes.NoEmptyChunk) (content : bytes.toVec = batch.image)
    (room : state.HasRoom fragMaxSize bytes) (timer : Timer) :
    ∃ result later left,
      state.push bytes fragMaxSize timer = .ok (result, later) ∧
        Complete fragMaxSize later got (Priority.update counters p after)
          (Priority.update messages p (messages p ++ more))
          (Priority.update unfinished p next) left := by
  rcases emit_synced emit (at_ p) solid content complete.sound
      (complete.synced p) limit with
    ⟨decoded, defrag, received, brings, synced⟩
  rcases Pipeline.push_pushes complete.holds received.run brings timer with
    ⟨result, later, left, run, pushes, all⟩
  have added := all room
  refine ⟨result, later, left, run, ?_, pushes.holds,
    added.free complete.free, fun q => ?_, fun q => ?_⟩
  · rw [pushes.defrag_eq]
    exact received.sound
  · simp only [pushes.defrag_eq, Priority.update_apply]
    split
    · exact synced
    · rename_i distinct
      intro part same fits
      rw [received.others _ (by
        rw [stream, (at_ q part same).1]
        exact distinct)]
      exact complete.synced q part same fits
  · rw [added.exactly q, Priority.update_apply, ← List.append_assoc,
      complete.exactly q]
    split
    · rename_i same
      rw [same]
    · rw [List.append_nil]

/-- The last call of a sequence that never finds its ring full. -/
theorem neverFull_concat {start middle : Pipeline}
    {calls : List Pipeline.Call} {next : Pipeline.Call}
    {got : List (Bytes × QoS)}
    (never : Pipeline.NeverFull fragMaxSize start (calls ++ [next]))
    (served : Pipeline.serve fragMaxSize start calls = .ok (got, middle)) :
    middle.FindsRoom fragMaxSize next := by
  induction calls generalizing start got with
  | nil =>
      cases served
      exact never.1
  | cons first calls hypothesis =>
      rw [Pipeline.serve] at served
      rcases never with ⟨_, later⟩
      cases ran : start.answer fragMaxSize first with
      | error fault =>
          rw [ran] at served
          cases served
      | ok outcome =>
          rcases outcome with ⟨found, after⟩
          rw [ran, ok_bind] at served
          rw [ran] at later
          cases rest : Pipeline.serve fragMaxSize after calls with
          | error fault =>
              simp only [rest, error_bind] at served
              cases served
          | ok last =>
              rcases last with ⟨more, final⟩
              simp only [rest, ok_bind] at served
              cases served
              exact hypothesis later rest

theorem neverFull_init {start : Pipeline} {calls : List Pipeline.Call}
    {next : Pipeline.Call}
    (never : Pipeline.NeverFull fragMaxSize start (calls ++ [next])) :
    Pipeline.NeverFull fragMaxSize start calls := by
  induction calls generalizing start with
  | nil => trivial
  | cons first calls hypothesis =>
      rcases never with ⟨room, later⟩
      refine ⟨room, ?_⟩
      cases ran : start.answer fragMaxSize first with
      | error fault => trivial
      | ok outcome =>
          rw [ran] at later
          exact hypothesis later

/-- The calls that feed every batch emitted all succeed. -/
theorem serve_complete {capacity : Nat} {calls : List Pipeline.Call}
    {fed : List Sent}
    (same : Pipeline.pushed calls = fed.map Sent.image)
    {counters : Priority → Counters}
    {messages : Priority → List (List UInt8)}
    {unfinished : Priority → Option Partial}
    (emits : ∀ p,
      Emits p (batchesAt p fed) (counters p) (messages p) (unfinished p))
    (limit : ∀ p, ∀ message ∈ messages p,
      (encodeMessage message).length ≤ fragMaxSize)
    (never : Pipeline.NeverFull fragMaxSize (.new capacity) calls) :
    ∃ got state pending,
      Pipeline.serve fragMaxSize (.new capacity) calls = .ok (got, state) ∧
        Complete fragMaxSize state got counters messages unfinished
          pending := by
  induction calls using List.reverseRecOn
    generalizing fed counters messages unfinished with
  | nil =>
      have empty : fed = [] := by
        cases fed with
        | nil => rfl
        | cons batch fed => cases same
      subst empty
      refine ⟨[], .new capacity, _, rfl,
        (Pipeline.sound_new capacity).buffers,
        Pipeline.pending_new capacity, fun _ => rfl, fun p => ?_,
        fun p => ?_⟩
      · rcases (emits p).nil_cases with ⟨_, _, nothing⟩
        intro part impossible
        rw [nothing] at impossible
        cases impossible
      · rcases (emits p).nil_cases with ⟨_, nothing, _⟩
        rw [nothing]
        rfl
  | append_singleton calls next hypothesis =>
      have neverBefore := neverFull_init never
      cases next with
      | tryPull =>
          rw [pushed_concat_tryPull] at same
          rcases hypothesis same emits limit neverBefore with
            ⟨got, state, pending, served, complete⟩
          rcases complete_tryPull complete with
            ⟨result, after, left, run, kept, _⟩
          exact ⟨_, after, left, Pipeline.serve_concat served run, kept⟩
      | push chunk timer =>
          rcases pushed_concat_push same with
            ⟨before, batch, rfl, sameBefore, content⟩
          have own := emits batch.qos.priority
          rw [batchesAt_concat_same] at own
          rcases own.concat_cases with
            ⟨earlier, front, part, more, emitted, emit, split⟩
          have emitsAll : ∀ p, Emits p (batchesAt p before)
              (Priority.update counters batch.qos.priority earlier p)
              (Priority.update messages batch.qos.priority front p)
              (Priority.update unfinished batch.qos.priority part p) := by
            intro p
            simp only [Priority.update_apply]
            split
            · rename_i own
              rw [own]
              exact emitted
            · rename_i distinct
              rw [← batchesAt_concat_other before distinct]
              exact emits p
          have limitAll : ∀ p, ∀ message ∈
              Priority.update messages batch.qos.priority front p,
                (encodeMessage message).length ≤ fragMaxSize := by
            intro p message member
            simp only [Priority.update_apply] at member
            split at member
            · apply limit batch.qos.priority
              rw [split]
              exact List.mem_append_left _ member
            · exact limit p message member
          rcases hypothesis sameBefore emitsAll limitAll
              neverBefore with
            ⟨got, state, pending, served, complete⟩
          have emitHere : Emit batch.qos.priority
              (Priority.update counters batch.qos.priority earlier
                batch.qos.priority)
              (Priority.update unfinished batch.qos.priority part
                batch.qos.priority) batch
              (counters batch.qos.priority) more
              (unfinished batch.qos.priority) := by
            rwa [Priority.update_same, Priority.update_same]
          have lastLimit : ∀ message ∈ more,
              (encodeMessage message).length ≤ fragMaxSize := by
            intro message member
            apply limit batch.qos.priority
            rw [split]
            exact List.mem_append_right _ member
          rcases complete_push complete emitHere
              (fun q => (emitsAll q).unfinished_at) lastLimit
              (noEmptyChunk_image content)
              (by rw [Bytes.toVec_single, content])
              (neverFull_concat never served) timer with
            ⟨result, later, left, run, kept⟩
          have answered : state.answer fragMaxSize (.push chunk timer) =
              .ok (none, later) := by
            simp only [Pipeline.answer, run, ok_bind]
            rfl
          have all := Pipeline.serve_concat served answered
          rw [Option.toList_none, List.append_nil] at all
          refine ⟨got, later, left, all, kept.sound, kept.holds, kept.free,
            fun p => ?_, fun p => ?_⟩
          · have synced := kept.synced p
            by_cases own : p = batch.qos.priority
            · cases own
              rwa [Priority.update_same, Priority.update_same] at synced
            · simpa only [Priority.update_other _ own] using synced
          · have exactly := kept.exactly p
            by_cases own : p = batch.qos.priority
            · cases own
              rwa [Priority.update_same, Priority.update_same, ← split]
                at exactly
            · simpa only [Priority.update_other _ own] using exactly

end Rx
end Thubo
