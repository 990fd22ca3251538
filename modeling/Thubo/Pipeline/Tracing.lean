import Thubo.Pipeline.Shares

/-!
# The shares of a run

Every step of a priority keeps the division of its batches into shares: the
running push adds the shares of what it writes, and committing a batch or
ending a push only moves them.
-/

namespace Thubo
namespace Tx

open Share (written)

variable {p : Priority} {stage after : Stage}
variable {parts : List (List Share)} {current : List Share}

/-! ## What a push adds -/

/-- The counters do not matter for the shares. -/
theorem Traced.repool (traced : Traced p stage parts current)
    (pool : SeqNumPool) (used : Counters) :
    Traced p { stage with pool := pool, used := used } parts current where
  committed := traced.later (List.prefix_refl _) (List.prefix_refl _)
  unbooked := traced.unbooked
  booked batch isBooked :=
    (traced.booked batch isBooked).later (List.prefix_refl _)
      (List.prefix_refl _) rfl
  accepted := traced.accepted
  running := traced.running

/-- The running push writes into a batch of its own kind. -/
theorem Holds.extend {batch next : WriteBatch} {shares : List Share}
    (holds : Holds p stage batch shares) {push : Push}
    (isRunning : stage.running = some push) {added : List Share}
    (own : ∀ share ∈ added, share.push = stage.log.length)
    (content : next.content = batch.content ++ Share.contents added)
    (qos : next.qos = batch.qos)
    (control : added ≠ [] →
      push.qos.congestionControl = batch.qos.congestionControl)
    (flagged : ∀ index, next.drop = some index →
      stage.Broke index ∨ index = stage.log.length ∧ shares = []) :
    Holds p stage next (shares ++ added) where
  content_eq := by
    rw [content, holds.content_eq, Share.contents_append]
  priority_eq := by
    rw [qos, holds.priority_eq]
  control share member := by
    rw [qos]
    rcases List.mem_append.1 member with old | new
    · exact holds.control share old
    · rw [own share new]
      exact ⟨push.msg, push.qos, pushes_running isRunning,
        control (List.ne_nil_of_mem new)⟩
  flagged index flag := by
    rcases flagged index flag with broke | ⟨rfl, rfl⟩
    · exact Or.inl broke
    · exact Or.inr own

/-- A batch without content, ready for a header. -/
structure Ready (p : Priority) (stage : Stage) (push : Push)
    (batch : WriteBatch) : Prop where
  writable : batch.Writable stage.batchSize
  content_eq : batch.content = []
  priority_eq : batch.qos.priority = p
  qos_eq : 0 < batch.frame.remaining → batch.qos = push.qos
  broke : ∀ index, batch.drop = some index → stage.Broke index

theorem Ready.holds {push : Push} {batch : WriteBatch}
    (ready : Ready p stage push batch) : Holds p stage batch [] where
  content_eq := ready.content_eq
  priority_eq := ready.priority_eq
  control share impossible := by
    cases impossible
  flagged index flag := Or.inl (ready.broke index flag)

/-- A push that has written its message ends with `Ok`. -/
theorem returnNotify_traced (traced : Traced p stage parts current)
    {push : Push} (isRunning : stage.running = some push)
    {added : List Share}
    (own : ∀ share ∈ added, share.push = stage.log.length)
    (whole : written stage.log.length
      (parts.flatten ++ current ++ added) = encodeMessage push.msg.toVec)
    {batch : WriteBatch}
    (open_ : Open p stage batch (current ++ added)) (flush : Bool) :
    ∃ parts' current',
      Traced p (stage.returnNotify push batch flush) parts' current' := by
  unfold Stage.returnNotify
  split
  · have pushes : stage.pushes <+:
        ((stage.commit batch).finish push (.ok ())).pushes :=
      pushes_finish isRunning rfl rfl
    have log : stage.log <+:
        ((stage.commit batch).finish push (.ok ())).log :=
      List.prefix_append _ _
    refine ⟨parts ++ [current ++ added], [], traced.finish own rfl rfl
      (fun _ => whole) ?_ ?_ (fun _ => rfl) ?_⟩
    · simp
    · exact List.rel_append (traced.later log pushes)
        (.cons (open_.holds.later log pushes) .nil)
    · intro other impossible
      cases impossible
  · have pushes : stage.pushes <+:
        ({ stage with booked := some batch }.finish push
          (.ok ())).pushes := pushes_finish isRunning rfl rfl
    have log : stage.log <+:
        ({ stage with booked := some batch }.finish push (.ok ())).log :=
      List.prefix_append _ _
    refine ⟨parts, current ++ added, traced.finish own rfl rfl
      (fun _ => whole) ?_ ?_ ?_ ?_⟩
    · simp
    · exact traced.later log pushes
    · intro impossible
      cases impossible
    · intro other same
      cases same
      exact open_.later log pushes rfl

/-- A push that fails leaves the booked batch behind. -/
theorem failed_traced (traced : Traced p stage parts current)
    {push : Push} (isRunning : stage.running = some push)
    {extra : List UInt8} {batch before : WriteBatch}
    (holds : Holds p stage before current)
    (solid : ∀ share ∈ current, share.bytes ≠ [])
    (control : 0 < before.frame.remaining →
      push.qos.congestionControl = before.qos.congestionControl)
    (writable : before.Writable stage.batchSize)
    (leaves : WriteBatch.Leaves before batch extra)
    (flagged : ∀ index, before.drop = some index →
      stage.Broke index ∨ index = stage.log.length ∧ current = []) :
    ∃ parts' current',
      Traced p
        ({ stage with booked := some batch }.finish push
          (.error .encodingFailed)) parts' current' := by
  have pushes : stage.pushes <+:
      ({ stage with booked := some batch }.finish push
        (.error .encodingFailed)).pushes := pushes_finish isRunning rfl rfl
  have log : stage.log <+: ({ stage with booked := some batch }.finish push
      (.error .encodingFailed)).log := List.prefix_append _ _
  have content := leaves.content_eq writable
  have after := leaves.writable writable
  have nothing : extra ≠ [] → 0 < before.frame.remaining := by
    intro something
    have positive := List.length_pos_iff.2 something
    have le := after.length_le
    rw [content, List.length_append] at le
    rw [writable.remaining_eq]
    omega
  have own : ∀ share ∈ Share.ofLeft stage.log.length extra,
      share.push = stage.log.length := Share.push_ofLeft
  have extended : Holds p stage batch
      (current ++ Share.ofLeft stage.log.length extra) := by
    refine holds.extend isRunning own ?_ leaves.qos_eq ?_ ?_
    · rw [content, Share.contents_ofLeft]
    · intro added
      apply control (nothing _)
      rintro rfl
      exact added rfl
    · intro index flag
      rw [leaves.drop_eq] at flag
      exact flagged index flag
  refine ⟨parts, current ++ Share.ofLeft stage.log.length extra,
    traced.finish own rfl rfl ?_ ?_ ?_ ?_ ?_⟩
  · intro impossible
    cases impossible
  · simp
  · exact traced.later log pushes
  · intro impossible
    cases impossible
  · intro other same
    cases same
    refine ⟨extended.later log pushes, after, ?_, ?_, ?_⟩
    · intro share member
      rcases List.mem_append.1 member with old | new
      · exact solid share old
      · exact Share.bytes_ofLeft share new
    · intro index flag
      rw [leaves.drop_eq] at flag
      rcases flagged index flag with broke | ⟨rfl, _⟩
      · exact broke.later log
      · exact ⟨_, List.getElem?_concat_length, rfl⟩
    · intro empty
      rw [content, List.append_eq_nil_iff] at empty
      rcases Nat.eq_zero_or_pos before.frame.remaining with full | room
      · rw [writable.remaining_eq, empty.1] at full
        rw [after.remaining_eq, content, empty.1, empty.2]
        exact full
      · exact absurd empty.2 (leaves.grows room)

/-- A fragment is moved out, and the push goes on or ends. -/
theorem moveFragment_traced (traced : Traced p stage parts [])
    {push : Push} (isRunning : stage.running = some push)
    (priority : push.qos.priority = p) (bounded : push.msg.len < 2 ^ 64)
    {shares : List Share}
    (own : ∀ share ∈ shares, share.push = stage.log.length)
    {batch : WriteBatch} (holds : Holds p stage batch shares)
    {fragId : SeqNum} {reader : BytesReader} (placed : reader.Placed)
    (split : written stage.log.length (parts.flatten ++ shares) ++
      reader.rest = encodeMessage push.msg.toVec)
    (moved : stage.moveFragment push batch fragId reader = .ok after) :
    ∃ parts' current', Traced p after parts' current' := by
  simp only [Stage.moveFragment, placed.remaining_eq, ok_bind] at moved
  split at moved
  · cases moved
    have log : stage.log <+: ((stage.commit batch).suspend push
        (.fragments ((stage.commit batch).pool.gen
          push.qos.congestionControl).next fragId reader)).log :=
      List.prefix_refl _
    have pushes : stage.pushes <+: ((stage.commit batch).suspend push
        (.fragments ((stage.commit batch).pool.gen
          push.qos.congestionControl).next fragId reader)).pushes :=
      pushes_suspend isRunning rfl rfl rfl rfl
    refine ⟨parts ++ [shares], [], ?_⟩
    apply traced.suspend own
    · rfl
    · rfl
    · refine ⟨priority, bounded, rfl, placed, ?_⟩
      rwa [List.append_nil]
    · simp
    · exact List.rel_append (traced.later log pushes)
        (.cons (holds.later log pushes) .nil)
    · intro _
      rfl
    · intro other impossible
      cases impossible
  · rename_i ended
    cases moved
    have rest : reader.rest = [] :=
      List.length_eq_zero_iff.1 (not_not.1 ended)
    rw [rest, List.append_nil] at split
    have log : stage.log <+:
        ((stage.commit batch).finish push (.ok ())).log :=
      List.prefix_append _ _
    have pushes : stage.pushes <+:
        ((stage.commit batch).finish push (.ok ())).pushes :=
      pushes_finish isRunning rfl rfl
    refine ⟨parts ++ [shares], [], traced.finish own rfl rfl
      (fun _ => ?_) ?_ ?_ (fun _ => rfl) ?_⟩
    · rwa [List.append_nil]
    · simp
    · exact List.rel_append (traced.later log pushes)
        (.cons (holds.later log pushes) .nil)
    · intro other impossible
      cases impossible

/-- A fragment holds only shares of the running push. -/
theorem holds_carried {push : Push} (isRunning : stage.running = some push)
    {before batch : WriteBatch} {header body : List UInt8}
    {reader : BytesReader} {rest : List UInt8}
    (carried : WriteBatch.Carried before batch header body reader rest)
    (empty : before.content = []) (qos : before.qos = push.qos)
    (priority : push.qos.priority = p)
    (flag : before.drop = some stage.log.length) :
    Holds p stage batch
      (Share.ofPush stage.log.length header body) where
  content_eq := by
    rw [carried.content_eq, empty, List.nil_append,
      Share.contents_ofPush]
  priority_eq := by
    rw [carried.qos_eq, qos, priority]
  control share member := by
    rw [Share.push_ofPush share member, carried.qos_eq, qos]
    exact ⟨push.msg, push.qos, pushes_running isRunning, rfl⟩
  flagged index same := by
    rw [carried.drop_eq, flag] at same
    cases same
    exact Or.inr Share.push_ofPush

/-- An encoded message is never empty. -/
theorem encoded_ne_nil {msg : Bytes} (bounded : msg.len < 2 ^ 64) :
    msg.encoded ≠ [] := by
  have positive := vleLen_pos bounded
  have length := length_vleBytes bounded
  intro empty
  rw [Bytes.encoded, List.append_eq_nil_iff] at empty
  rw [empty.1, List.length_nil] at length
  omega

/-- A header and a message on a batch that is ready. -/
theorem Ready.open_ {push : Push} {batch : WriteBatch}
    (ready : Ready p stage push batch)
    (isRunning : stage.running = some push)
    (bounded : push.msg.len < 2 ^ 64) {header : List UInt8}
    (something : header ≠ [])
    (room : (header ++ push.msg.encoded).length ≤ batch.frame.remaining) :
    Open p stage (batch.put (header ++ push.msg.encoded) room)
      (Share.ofPush stage.log.length header push.msg.encoded) := by
  have positive := List.length_pos_iff.2 something
  have sameQos := ready.qos_eq (by
    rw [List.length_append] at room
    omega)
  have content := WriteBatch.content_put ready.writable.headed
    ready.writable.whole room
  have extended : Holds p stage (batch.put _ room)
      ([] ++ Share.ofPush stage.log.length header push.msg.encoded) := by
    refine ready.holds.extend isRunning Share.push_ofPush ?_ rfl ?_ ?_
    · rw [content, Share.contents_ofPush]
    · intro _
      rw [sameQos]
    · intro index flag
      exact Or.inl (ready.broke index flag)
  refine ⟨extended, ready.writable.put room, ?_, ready.broke, ?_⟩
  · intro share member
    simp only [Share.ofPush, List.mem_cons, List.not_mem_nil,
      or_false] at member
    rcases member with rfl | rfl
    · exact something
    · exact encoded_ne_nil bounded
  · intro empty
    rw [content, ready.content_eq, List.nil_append,
      List.append_eq_nil_iff] at empty
    exact absurd empty.1 something

/-- A push writes a new frame, or the first fragment of its message. -/
theorem frameStep_traced (traced : Traced p stage parts [])
    {push : Push} (isRunning : stage.running = some push)
    (priority : push.qos.priority = p) (bounded : push.msg.len < 2 ^ 64)
    (nothing : written stage.log.length parts.flatten = [])
    {batch : WriteBatch} (ready : Ready p stage push batch) {flush : Bool}
    (stepped : stage.frameStep push batch flush = .ok after) :
    ∃ parts' current', Traced p after parts' current' := by
  have spec := batch.startFrame_spec
    (.new push.qos (stage.pool.gen push.qos.congestionControl).next) bounded
  unfold Stage.frameStep at stepped
  dsimp only at stepped
  by_cases room : ((Message.mk (.new push.qos
      (stage.pool.gen push.qos.congestionControl).next)
        (.frame .new)).bytes ++ push.msg.encoded).length ≤
          batch.frame.remaining
  · rw [spec.1 room, ok_bind] at stepped
    cases stepped
    have open_ := ready.open_ isRunning bounded (List.cons_ne_nil _ _) room
    refine returnNotify_traced
      (traced.repool
        (stage.pool.setGen (stage.pool.gen push.qos.congestionControl).next
          push.qos.congestionControl)
        (stage.used.bump push.qos.congestionControl)) isRunning
      Share.push_ofPush ?_
      (open_.later (List.prefix_refl _) (List.prefix_refl _) rfl) flush
    change written stage.log.length _ = _
    rw [List.append_nil, Share.written_append, nothing,
      Share.written_ofPush, List.nil_append, encoded_eq]
  · rw [spec.2 (Nat.lt_of_not_le room), ok_bind] at stepped
    have flagged := ready.writable.flagged
      (stage.takeFragId stage.pool.fragId.next).dropFlag
    rcases WriteBatch.startFragments_cases flagged
        (.new push.qos (stage.pool.gen push.qos.congestionControl).next)
        stage.pool.fragId.next bounded with
      ⟨left, extra, failed, leaves⟩ | ⟨taken, next, reader, ran, carried⟩
    · simp only [failed, ok_bind] at stepped
      cases stepped
      refine failed_traced
        (traced.repool { stage.pool with fragId := stage.pool.fragId.next }
          stage.used.bumpFragmented) isRunning ?_ (by simp) ?_ flagged
        leaves ?_
      · exact ⟨ready.content_eq, ready.priority_eq, by simp,
          fun _ _ => Or.inr (by simp)⟩
      · intro some_
        rw [← ready.qos_eq some_]
      · intro index same
        cases same
        exact Or.inr ⟨rfl, rfl⟩
    · simp only [ran, ok_bind] at stepped
      have positive : 0 < batch.frame.remaining :=
        Nat.lt_of_lt_of_le (Nat.succ_pos _) carried.room
      have holds := holds_carried isRunning carried ready.content_eq
        (ready.qos_eq positive) priority rfl
      refine moveFragment_traced
        (traced.repool
          ((stage.takeFragId stage.pool.fragId.next).pool.setGen
            (stage.pool.gen push.qos.congestionControl).next
            push.qos.congestionControl)
          (stage.used.bumpFragmented.bump push.qos.congestionControl))
        isRunning priority bounded Share.push_ofPush
        (holds.later (List.prefix_refl _) (List.prefix_refl _))
        carried.placed ?_ stepped
      change written stage.log.length _ ++ _ = _
      rw [carried.rest_eq, Share.written_append, nothing,
        Share.written_ofPush, List.nil_append, List.append_assoc,
        List.take_append_drop, encodeMessage, Bytes.length_toVec]

/-- A push writes the next fragment of its message. -/
theorem fragmentStep_traced (traced : Traced p stage parts [])
    {push : Push} (isRunning : stage.running = some push)
    (priority : push.qos.priority = p) (bounded : push.msg.len < 2 ^ 64)
    {batch : WriteBatch} (fresh : batch.Fresh stage.batchSize)
    (qos : batch.qos = push.qos)
    (flag : batch.drop = some stage.log.length) {seqNum fragId : SeqNum}
    {reader : BytesReader} (placed : reader.Placed)
    (split : written stage.log.length parts.flatten ++ reader.rest =
      encodeMessage push.msg.toVec)
    (stepped : stage.fragmentStep push batch seqNum fragId reader =
      .ok after) :
    ∃ parts' current', Traced p after parts' current' := by
  unfold Stage.fragmentStep at stepped
  dsimp only at stepped
  rcases WriteBatch.continueFragments_cases fresh.writable
      (.new push.qos seqNum) fragId placed with
    ⟨fault, failed⟩ | ⟨kind, taken, next, rest, ran, carried⟩
  · rw [failed] at stepped
    cases stepped
  · simp only [ran, ok_bind] at stepped
    have holds := holds_carried isRunning carried fresh.content_eq qos
      priority flag
    refine moveFragment_traced
      (traced.repool
        (stage.pool.setGen seqNum push.qos.congestionControl)
        (stage.used.bump push.qos.congestionControl))
      isRunning priority bounded Share.push_ofPush
      (holds.later (List.prefix_refl _) (List.prefix_refl _))
      carried.placed ?_ stepped
    change written stage.log.length _ ++ _ = _
    rw [carried.rest_eq, Share.written_append, Share.written_ofPush,
      List.append_assoc, List.take_append_drop, split]

/-- The pending batch is moved out. -/
theorem moveOut_traced (traced : Traced p stage parts current)
    {push : Push} (isRunning : stage.running = some push)
    (runs : push.qos.priority = p ∧ push.msg.len < 2 ^ 64)
    (nothing : written stage.log.length (parts.flatten ++ current) = [])
    {batch : WriteBatch} (holds : Holds p stage batch current) :
    ∃ parts' current',
      Traced p ((stage.commit batch).suspend push .fresh) parts'
        current' := by
  have log : stage.log <+: ((stage.commit batch).suspend push .fresh).log :=
    List.prefix_refl _
  have pushes : stage.pushes <+:
      ((stage.commit batch).suspend push .fresh).pushes :=
    pushes_suspend isRunning rfl rfl rfl rfl
  refine ⟨parts ++ [current], [], ?_⟩
  have own : ∀ share ∈ ([] : List Share),
      share.push = stage.log.length := by simp
  apply traced.suspend own
  · rfl
  · rfl
  · refine ⟨runs.1, runs.2, rfl, ?_⟩
    rwa [List.append_nil]
  · simp
  · exact List.rel_append (traced.later log pushes)
      (.cons (holds.later log pushes) .nil)
  · intro _
    rfl
  · intro other impossible
    cases impossible

/-- A push appends to the booked batch of its kind, or moves it out. -/
theorem append_traced (traced : Traced p stage parts current)
    {push : Push} (isRunning : stage.running = some push)
    (priority : push.qos.priority = p) (bounded : push.msg.len < 2 ^ 64)
    (nothing : written stage.log.length (parts.flatten ++ current) = [])
    {batch : WriteBatch} (isBooked : stage.booked = some batch)
    (control : batch.qos.congestionControl = push.qos.congestionControl)
    {flush : Bool}
    (stepped : (do
      match ← batch.append push.msg with
      | (true, batch) => return stage.returnNotify push batch flush
      | (false, batch) =>
          return (stage.commit batch).suspend push .fresh) = .ok after) :
    ∃ parts' current', Traced p after parts' current' := by
  have open_ := traced.booked batch isBooked
  have spec := WriteBatch.encode_spec
    (Bytes.write_writes push.msg bounded) batch
  rw [WriteBatch.append] at stepped
  by_cases room : push.msg.encoded.length ≤ batch.frame.remaining
  · rw [spec.1 room, ok_bind] at stepped
    cases stepped
    have content := WriteBatch.content_put open_.writable.headed
      open_.writable.whole room
    have own : ∀ share ∈
        [Share.mk stage.log.length true push.msg.encoded],
        share.push = stage.log.length := by simp
    have extended : Holds p stage (batch.put push.msg.encoded room)
        (current ++ [⟨stage.log.length, true, push.msg.encoded⟩]) := by
      refine open_.holds.extend isRunning own ?_ rfl ?_ ?_
      · rw [content]
        simp
      · intro _
        exact control.symm
      · intro index flag
        exact Or.inl (open_.broke index flag)
    refine returnNotify_traced traced isRunning own ?_
      ⟨extended, open_.writable.put room, ?_, open_.broke, ?_⟩ flush
    · rw [Share.written_append, nothing, List.nil_append, ← encoded_eq]
      simp [written]
    · intro share member
      rcases List.mem_append.1 member with old | new
      · exact open_.solid share old
      · rw [List.mem_singleton.1 new]
        exact encoded_ne_nil bounded
    · intro empty
      rw [content, List.append_eq_nil_iff] at empty
      exact absurd empty.2 (encoded_ne_nil bounded)
  · rw [spec.2 (Nat.lt_of_not_le room), ok_bind] at stepped
    cases stepped
    exact moveOut_traced traced isRunning ⟨priority, bounded⟩ nothing
      open_.holds

/-- A refilled batch is ready for the push that takes it. -/
theorem ready_refilled {push : Push} (free : stage.booked = none)
    (priority : push.qos.priority = p) :
    Ready p stage push (stage.batch push.qos none) := by
  rcases refilled_fresh free push.qos none with ⟨fresh, qos⟩
  refine ⟨fresh.writable, fresh.content_eq, by rw [qos, priority],
    fun _ => qos, ?_⟩
  intro index flag
  rw [Stage.batch, free] at flag
  cases flag

/-- The running push takes a batch and writes into it. -/
theorem resume_traced (traced : Traced p stage parts current)
    (small : stage.batchSize ≤ 65535) {push : Push}
    (isRunning : stage.running = some push) {flush : Bool}
    (stepped : stage.resume push flush = .ok after) :
    ∃ parts' current', Traced p after parts' current' := by
  rcases traced.running push isRunning with ⟨priority, bounded, goesOn⟩
  unfold Stage.resume at stepped
  cases point : push.point with
  | fragments seqNum fragId reader =>
      rw [point] at goesOn stepped
      rcases goesOn with ⟨free, placed, split⟩
      cases traced.unbooked free
      rw [List.append_nil] at split
      rcases refilled_fresh free push.qos stage.dropFlag with
        ⟨fresh, qos⟩
      refine fragmentStep_traced traced isRunning priority bounded fresh
        qos ?_ placed split stepped
      rw [Stage.batch, free]
      rfl
  | fresh =>
      rw [point] at goesOn stepped
      rcases goesOn with ⟨free, nothing⟩
      cases traced.unbooked free
      rw [List.append_nil] at nothing
      exact frameStep_traced traced isRunning priority bounded nothing
        (ready_refilled free priority) stepped
  | start =>
      rw [point] at goesOn stepped
      cases isBooked : stage.booked with
      | none =>
          have ready : Ready p stage push (stage.batch push.qos none) :=
            ready_refilled isBooked priority
          have empty := (ready.writable.isEmpty_iff small).2
            ready.content_eq
          cases traced.unbooked isBooked
          have nothing : written stage.log.length (_ ++ []) = [] := goesOn
          rw [List.append_nil] at nothing
          simp only [empty, if_true] at stepped
          exact frameStep_traced traced isRunning priority bounded nothing
            ready stepped
      | some batch =>
          have open_ := traced.booked batch isBooked
          have same : stage.batch push.qos none = batch := by
            rw [Stage.batch, isBooked]
          simp only [same] at stepped
          split at stepped
          · rename_i empty
            have content :=
              (open_.writable.isEmpty_iff small).1 empty
            have contents := open_.holds.content_eq
            rw [content] at contents
            have noShare : current = [] := by
              apply List.eq_nil_iff_forall_not_mem.2
              intro share member
              have bytes := List.flatMap_eq_nil_iff.1 contents.symm share
                member
              exact open_.solid share member bytes
            cases noShare
            have nothing : written stage.log.length (_ ++ []) = [] :=
              goesOn
            rw [List.append_nil] at nothing
            refine frameStep_traced traced isRunning priority bounded
              nothing ⟨open_.writable, content, open_.holds.priority_eq,
                ?_, open_.broke⟩ stepped
            intro room
            rw [open_.filled content] at room
            exact absurd room (Nat.lt_irrefl 0)
          · split at stepped
            · rename_i control
              exact append_traced traced isRunning priority bounded goesOn
                isBooked control stepped
            · cases stepped
              exact moveOut_traced traced isRunning ⟨priority, bounded⟩
                goesOn open_.holds

/-! ## Every step -/

/-- Every step of a priority keeps the shares. -/
theorem step_traced (traced : Traced p stage parts current)
    (small : stage.batchSize ≤ 65535) {action : Stage.Action}
    (at_ : action.At p) (stepped : stage.step action = .ok (some after)) :
    ∃ parts' current', Traced p after parts' current' := by
  cases action with
  | begin msg qos =>
      rcases step_begin stepped with ⟨isRunning, rfl⟩
      have pushes : stage.pushes <+: ({ stage with
          running := some ⟨msg, qos, .start⟩ } : Stage).pushes := by
        simp [Stage.pushes, isRunning]
      refine ⟨parts, current, ?_⟩
      exact
        { committed := traced.later (List.prefix_refl _) pushes
          unbooked := traced.unbooked
          booked := fun batch isBooked =>
            (traced.booked batch isBooked).later (List.prefix_refl _)
              pushes rfl
          accepted := traced.accepted
          running := by
            intro push same
            cases same
            exact ⟨at_.1, at_.2, traced.written_next isRunning⟩ }
  | resume flush =>
      rcases step_resume stepped with ⟨push, isRunning, run⟩
      exact resume_traced traced small isRunning run
  | abandon error =>
      rcases step_abandon stepped with ⟨push, isRunning, isBooked, rfl⟩
      have pushes : stage.pushes <+:
          (stage.finish push (.error error)).pushes :=
        pushes_finish isRunning rfl rfl
      have own : ∀ share ∈ ([] : List Share),
          share.push = stage.log.length := by simp
      refine ⟨parts, current, ?_⟩
      apply traced.finish own
      · rfl
      · rfl
      · intro impossible
        cases impossible
      · simp
      · exact traced.later (List.prefix_append _ _) pushes
      · exact traced.unbooked
      · intro batch same
        change stage.booked = some batch at same
        rw [isBooked] at same
        cases same
  | flush =>
      rcases step_flush stepped with ⟨batch, isRunning, isBooked, rfl⟩
      have log : stage.log <+: (stage.commit batch).log :=
        List.prefix_refl _
      have pushes : stage.pushes <+: (stage.commit batch).pushes :=
        List.prefix_refl _
      have holds := (traced.booked batch isBooked).holds
      refine ⟨parts ++ [current], [], ?_⟩
      exact
        { committed := List.rel_append (traced.later log pushes)
            (.cons (holds.later log pushes) .nil)
          unbooked := fun _ => rfl
          booked := by
            intro other impossible
            cases impossible
          accepted := by
            intro index entry found ok
            have whole := traced.accepted index entry found ok
            simpa using whole
          running := by
            intro push same
            change stage.running = some push at same
            rw [isRunning] at same
            cases same }

end Tx
end Thubo
