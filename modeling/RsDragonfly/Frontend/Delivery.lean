import RsDragonfly.Frontend.InFlight
import RsDragonfly.Shard.Effects

/-! Commands are executed at most once and in order, and replies are not mixed up. -/
namespace RsDragonfly
open Library

namespace Traffic

section
variable {ι : Type} [DecidableEq ι]

/-- The executions of one command, with the part and its reply, newest first. -/
def executionsOf (t : Ticket ι) (acts : List (Act ι)) : List (Part × Response) :=
  acts.filterMap fun
    | .execute shard _ message response =>
      if message.replyTx = t then some (⟨shard, message.command⟩, response) else none
    | _ => none

theorem mem_executionsOf_iff {t : Ticket ι} {acts : List (Act ι)} {part : Part}
    {response : Response} : (part, response) ∈ executionsOf t acts ↔
      (⟨part.command, t⟩, response) ∈ executions part.shard acts := by
  rw [mem_executions_iff, executionsOf, List.mem_filterMap]
  constructor
  · rintro ⟨act, member, same⟩
    split at same
    · rename_i shard now message r
      split at same
      · rename_i here
        cases same
        cases here
        exact ⟨now, member⟩
      · cases same
    · cases same
  · rintro ⟨now, member⟩
    exact ⟨_, member, by simp⟩

theorem mem_executionsOf {i : Fin shardCount} {acts : List (Act ι)} {m : CommandMessage ι}
    {response : Response} (executed : (m, response) ∈ executions i acts) :
    (⟨i, m.command⟩, response) ∈ executionsOf m.replyTx acts :=
  mem_executionsOf_iff.mpr executed

theorem executionsOf_apart {acts : List (Act ι)}
    (ordered : ∀ i, ((executions i acts).map Prod.fst).Pairwise After) (t : Ticket ι) :
    ((executionsOf t acts).map (·.1.shard)).Nodup := by
  induction acts with
  | nil => exact List.nodup_nil
  | cons act acts ih =>
    have before : ∀ i, ((executions i acts).map Prod.fst).Pairwise After := by
      intro i
      refine (ordered i).sublist (List.Sublist.map _ ?_)
      exact List.Sublist.filterMap _ (List.sublist_cons_self act acts)
    cases act with
    | execute shard now message response =>
      by_cases here : message.replyTx = t
      · have grown : executionsOf t (.execute shard now message response :: acts) =
            (⟨shard, message.command⟩, response) :: executionsOf t acts := by
          simp [executionsOf, here]
        have at_shard : executions shard (.execute shard now message response :: acts) =
            (message, response) :: executions shard acts := by
          simp [executions]
        rw [grown, List.map_cons, List.nodup_cons]
        refine ⟨?_, ih before⟩
        intro again
        obtain ⟨⟨part, r⟩, member, same⟩ := List.mem_map.mp again
        have earlier := mem_executionsOf_iff.mp member
        rw [show part.shard = shard from same] at earlier
        have later := ordered shard
        rw [at_shard, List.map_cons, List.pairwise_cons] at later
        have after := later.1 _ (List.mem_map_of_mem earlier)
        rw [After, here] at after
        exact Nat.lt_irrefl _ (after rfl)
      · have same : executionsOf t (.execute shard now message response :: acts) =
            executionsOf t acts := by
          simp [executionsOf, here]
        rw [same]
        exact ih before
    | _ => exact ih before

end

section
variable {ι Q : Type} {acts : List (Act ι)} {σ : Traffic ι Q}

theorem acts_earlier {past later earlier : List (Traffic ι Q × Act ι)} {x : Traffic ι Q × Act ι}
    {act : Act ι} (split : past = later ++ x :: earlier) (member : act ∈ Traffic.acts earlier) :
    act ∈ Traffic.acts past := by
  rw [split, Traffic.acts, List.map_append, List.map_cons]
  exact List.mem_append_right _ (List.mem_cons_of_mem _ member)

/-- What `send_to_shard` answers when the shard does not. -/
def failures : List Response :=
  [Outcome.disconnected, .timedOut, .closed, .overloaded].map Outcome.single

theorem Sound.executed_ordered (sound : Sound acts σ) (i : Fin shardCount) :
    ((executions i acts).map Prod.fst).Pairwise After :=
  (sound.ordered i).sublist (List.sublist_append_right _ _)

/-- What is answered for one shard is the outcome of its one call. -/
theorem Sound.answered_single (sound : Sound acts σ) {t : Ticket ι} {command : Command}
    {response : Response} (answered : .answer t command response ∈ acts)
    (single : target command ≠ none) :
    ∃ shard outcome, .issue t command [⟨shard, command⟩] ∈ acts ∧
      .done t shard outcome ∈ acts ∧ response = outcome.single := by
  obtain ⟨id, goes⟩ := Option.ne_none_iff_exists'.mp single
  obtain ⟨parts, outcomes, origin, lengths, same, ended⟩ :=
    sound.answers t command response answered
  obtain ⟨shard, rfl, _⟩ := (sound.issues t command parts origin).2.1.single_eq goes
  obtain ⟨outcome, rfl⟩ := List.length_eq_one_iff.mp lengths
  refine ⟨shard, outcome, origin, ended (⟨shard, command⟩, outcome) List.mem_cons_self, ?_⟩
  rw [same]
  cases command with
  | del keys => cases goes
  | _ => rfl

theorem Sound.replied (sound : Sound acts σ) {t : Ticket ι} {command : Command}
    {response : Response} (answered : .answer t command response ∈ acts)
    (single : target command ≠ none) (served : response ∉ failures) :
    ∃ shard, .issue t command [⟨shard, command⟩] ∈ acts ∧
      .done t shard (.replied response) ∈ acts := by
  obtain ⟨shard, outcome, origin, ended, same⟩ := sound.answered_single answered single
  cases outcome with
  | replied reply =>
    rw [show response = reply from same]
    exact ⟨shard, origin, ended⟩
  | _ => exact absurd (same ▸ by decide) served

theorem Sound.joined (sound : Sound acts σ) {t : Ticket ι} {keys : List Key} {n : Int64}
    (answered : .answer t (.del keys) (.integer n) ∈ acts) :
    ∃ parts replies, .issue t (.del keys) parts ∈ acts ∧ .integer n = joinDel replies ∧
      replies.length = parts.length ∧
      ∀ x ∈ parts.zip replies, .done t x.1.shard (.replied x.2) ∈ acts := by
  obtain ⟨parts, outcomes, origin, lengths, same, ended⟩ := sound.answers t _ _ answered
  obtain ⟨replies, rfl⟩ := joinDel_replied same.symm
  rw [List.length_map] at lengths
  refine ⟨parts, replies, origin, ?_, lengths, ?_⟩
  · rw [same]
    simp only [answer, List.map_map]
    exact congrArg joinDel (List.map_id replies)
  · intro x member
    refine ended (x.1, .replied x.2) ?_
    rw [List.zip_map_right]
    exact List.mem_map_of_mem member

variable [DecidableEq ι]

theorem Sound.planned (sound : Sound acts σ) {t : Ticket ι} {command : Command} {parts : List Part}
    (origin : .issue t command parts ∈ acts) {x : Part × Response}
    (member : x ∈ executionsOf t acts) : x.1 ∈ parts := by
  have executed := mem_executionsOf_iff.mp member
  have there : ⟨x.1.command, t⟩ ∈ accepted x.1.shard acts σ :=
    List.mem_append_right _ (List.mem_map_of_mem executed)
  obtain ⟨_, _, command', parts', origin', part⟩ := sound.accepts _ _ there
  obtain ⟨_, rfl⟩ := (sound.issues t command parts origin).2.2 command' parts' origin'
  exact part

theorem Sound.once (sound : Sound acts σ) {t : Ticket ι} {command : Command} {parts : List Part}
    (origin : .issue t command parts ∈ acts) (single : target command ≠ none) :
    (executionsOf t acts).length ≤ 1 := by
  obtain ⟨id, goes⟩ := Option.ne_none_iff_exists'.mp single
  obtain ⟨shard, rfl, _⟩ := (sound.issues t command parts origin).2.1.single_eq goes
  have apart := executionsOf_apart sound.executed_ordered t
  have inside : (executionsOf t acts).map (·.1.shard) ⊆ [shard] := by
    intro i member
    obtain ⟨x, there, rfl⟩ := List.mem_map.mp member
    rw [List.mem_singleton.mp (sound.planned origin there)]
    exact List.mem_cons_self
  have short := (List.subperm_of_subset apart inside).length_le
  rwa [List.length_map] at short

/-- If every part was replied to, each was executed once, with that reply. -/
theorem Sound.executions_perm (sound : Sound acts σ) {t : Ticket ι} {command : Command}
    {parts : List Part} (origin : .issue t command parts ∈ acts) {replies : List Response}
    (lengths : replies.length = parts.length)
    (ended : ∀ x ∈ parts.zip replies, .done t x.1.shard (.replied x.2) ∈ acts) :
    (executionsOf t acts).Perm (parts.zip replies) := by
  have shards := (sound.issues t command parts origin).2.1.shards_nodup
  have firsts : (parts.zip replies).map Prod.fst = parts :=
    List.map_fst_zip (Nat.le_of_eq lengths.symm)
  have zipped : ((parts.zip replies).map (·.1.shard)).Nodup := by
    rw [← Function.comp_def Part.shard Prod.fst, ← List.map_map, firsts]
    exact shards
  have apart := executionsOf_apart sound.executed_ordered t
  have executed : ∀ x ∈ parts.zip replies, x ∈ executionsOf t acts := by
    rintro ⟨part, reply⟩ member
    obtain ⟨m, there, rfl⟩ := sound.delivers t part.shard reply (ended _ member)
    have listed := mem_executionsOf there
    have planned : ⟨part.shard, m.command⟩ ∈ parts := sound.planned origin listed
    have equal := List.inj_on_of_nodup_map shards planned (List.of_mem_zip member).1 rfl
    rwa [equal] at listed
  refine (List.perm_ext_iff_of_nodup (.of_map _ apart) (.of_map _ zipped)).mpr ?_
  intro x
  constructor
  · intro member
    have planned := sound.planned origin member
    rw [← firsts] at planned
    obtain ⟨y, there, same⟩ := List.mem_map.mp planned
    have equal : y = x :=
      List.inj_on_of_nodup_map apart (executed y there) member (congrArg Part.shard same)
    rwa [equal] at there
  · exact executed x

theorem Sound.executed_one (sound : Sound acts σ) {t : Ticket ι} {command : Command}
    {shard : Fin shardCount} {response : Response}
    (origin : .issue t command [⟨shard, command⟩] ∈ acts)
    (ended : .done t shard (.replied response) ∈ acts) :
    executionsOf t acts = [(⟨shard, command⟩, response)] := by
  apply List.perm_singleton.mp
  have replies : [response].length = [(⟨shard, command⟩ : Part)].length := rfl
  refine sound.executions_perm origin replies ?_
  intro x member
  rw [List.mem_singleton.mp member]
  exact ended

end

section
variable {ι Q : Type} [DecidableEq ι] [MaxQueue Q Expiry] [Layout]

/-- At most once, in order, and each reply to its own command. -/
structure Delivers (past : List (Traffic ι Q × Act ι)) : Prop where
  once : ∀ t command parts, .issue t command parts ∈ acts past → target command ≠ none →
    (executionsOf t (acts past)).length ≤ 1
  refused : ∀ t command response, .answer t command response ∈ acts past →
    response = .error "ERR shard overloaded" ∨ response = .error "ERR shard channel closed" →
      executionsOf t (acts past) = []
  replied : ∀ later earlier σ t command response,
    past = later ++ (σ, .answer t command response) :: earlier →
    target command ≠ none → response ∉ failures → ∃ shard,
      executionsOf t (acts earlier) = [(⟨shard, command⟩, response)] ∧
      executionsOf t (acts past) = [(⟨shard, command⟩, response)]
  joined : ∀ later earlier σ t keys n,
    past = later ++ (σ, .answer t (.del keys) (.integer n)) :: earlier →
    ∃ parts replies, Plans (.del keys) parts ∧ .integer n = joinDel replies ∧
      replies.length = parts.length ∧
      (executionsOf t (acts earlier)).Perm (parts.zip replies) ∧
      (executionsOf t (acts past)).Perm (parts.zip replies)
  ordered : ∀ later earlier σ i now m response,
    past = later ++ (σ, .execute i now m response) :: earlier →
    ∀ j now' m' response', .execute j now' m' response' ∈ acts earlier →
      m'.replyTx.client = m.replyTx.client → (∃ key ∈ m'.command.keys, key ∈ m.command.keys) →
        m'.replyTx.number < m.replyTx.number

theorem taken_of_mem {past : List (Traffic ι Q × Act ι)} {σ : Traffic ι Q}
    (run : (traffic ι Q).Run past σ) {act : Act ι} (member : act ∈ acts past) :
    ∃ earlier σ₁ σ₂, (traffic ι Q).Run earlier σ₁ ∧ Step σ₁ act σ₂ ∧ (σ₁, act) ∈ past ∧
      earlier ⊆ past := by
  obtain ⟨x, there, rfl⟩ := List.mem_map.mp member
  obtain ⟨later, earlier, rfl⟩ := List.append_of_mem there
  obtain ⟨before, σ₂, step⟩ := System.Run.at run
  refine ⟨earlier, x.1, σ₂, before, step, there, ?_⟩
  intro y inside
  exact List.mem_append_right _ (List.mem_cons_of_mem _ inside)

theorem not_failure {past : List (Traffic ι Q × Act ι)} {σ : Traffic ι Q}
    (run : (traffic ι Q).Run past σ) {i : Fin shardCount} {m : CommandMessage ι} {text : String}
    (executed : (m, .error text) ∈ executions i (acts past)) :
    text ≠ "ERR shard overloaded" ∧ text ≠ "ERR shard channel closed" := by
  obtain ⟨now, member⟩ := mem_executions_iff.mp executed
  obtain ⟨_, σ₁, σ₂, _, step, _⟩ := taken_of_mem run member
  cases step with
  | work works =>
    cases works with
    | execute executing returned =>
      have known := Shard.execute_error returned
      constructor
      · rintro rfl
        revert known
        decide
      · rintro rfl
        revert known
        decide

theorem refused_run {past : List (Traffic ι Q × Act ι)} {σ : Traffic ι Q}
    (run : (traffic ι Q).Run past σ) {t : Ticket ι} {command : Command} {text : String}
    (answered : .answer t command (.error text) ∈ acts past)
    (refused : text = "ERR shard overloaded" ∨ text = "ERR shard channel closed") :
    executionsOf t (acts past) = [] := by
  have sound := sound_run run
  cases goes : target command with
  | none =>
    obtain ⟨parts, outcomes, origin, _, same, _⟩ := sound.answers t command _ answered
    cases command with
    | del keys =>
      obtain ⟨not_overloaded, not_closed⟩ := joinDel_text same.symm
      rcases refused with overloaded | closed
      · exact absurd overloaded not_overloaded
      · exact absurd closed not_closed
    | _ => cases goes
  | some id =>
    have single : target command ≠ none := by rw [goes]; nofun
    obtain ⟨shard, outcome, origin, ended, same⟩ := sound.answered_single answered single
    have not_sent : outcome = .overloaded ∨ outcome = .closed := by
      cases outcome with
      | overloaded => exact .inl rfl
      | closed => exact .inr rfl
      | replied response =>
        obtain ⟨m, executed, _⟩ := sound.delivers t shard response ended
        rw [show response = .error text from same.symm] at executed
        obtain ⟨not_overloaded, not_closed⟩ := not_failure run executed
        rcases refused with overloaded | closed
        · exact absurd overloaded not_overloaded
        · exact absurd closed not_closed
      | disconnected => cases same; revert refused; decide
      | timedOut => cases same; revert refused; decide
    rw [List.eq_nil_iff_forall_not_mem]
    intro x member
    have planned := List.mem_singleton.mp (sound.planned origin member)
    have executed := mem_executionsOf_iff.mp member
    rw [planned] at executed
    refine sound.refuses t shard outcome ended not_sent ⟨command, t⟩ ?_ rfl
    exact List.mem_append_right _ (List.mem_map_of_mem executed)

section
variable {past later earlier : List (Traffic ι Q × Act ι)} {σ σ₀ : Traffic ι Q}

theorem replied_run (run : (traffic ι Q).Run past σ) {t : Ticket ι} {command : Command}
    {response : Response} (split : past = later ++ (σ₀, .answer t command response) :: earlier)
    (single : target command ≠ none) (served : response ∉ failures) :
    ∃ shard, executionsOf t (acts earlier) = [(⟨shard, command⟩, response)] ∧
      executionsOf t (acts past) = [(⟨shard, command⟩, response)] := by
  have sound := sound_run run
  rw [split] at run
  obtain ⟨before, σ₁, step⟩ := System.Run.at run
  have sound₀ := sound_run before
  obtain ⟨shard, origin, ended⟩ := (sound₀.step step).replied List.mem_cons_self single served
  have origin₀ := (List.mem_cons.mp origin).resolve_left nofun
  have ended₀ := (List.mem_cons.mp ended).resolve_left nofun
  exact ⟨shard, sound₀.executed_one origin₀ ended₀,
    sound.executed_one (acts_earlier split origin₀) (acts_earlier split ended₀)⟩

theorem joined_run (run : (traffic ι Q).Run past σ) {t : Ticket ι} {keys : List Key} {n : Int64}
    (split : past = later ++ (σ₀, .answer t (.del keys) (.integer n)) :: earlier) :
    ∃ parts replies, Plans (.del keys) parts ∧ .integer n = joinDel replies ∧
      replies.length = parts.length ∧
      (executionsOf t (acts earlier)).Perm (parts.zip replies) ∧
      (executionsOf t (acts past)).Perm (parts.zip replies) := by
  have sound := sound_run run
  rw [split] at run
  obtain ⟨before, σ₁, step⟩ := System.Run.at run
  have sound₀ := sound_run before
  obtain ⟨parts, replies, origin, same, lengths, ended⟩ :=
    (sound₀.step step).joined List.mem_cons_self
  have origin₀ := (List.mem_cons.mp origin).resolve_left nofun
  have ended₀ : ∀ x ∈ parts.zip replies, .done t x.1.shard (.replied x.2) ∈ acts earlier :=
    fun x member => (List.mem_cons.mp (ended x member)).resolve_left nofun
  exact ⟨parts, replies, (sound₀.issues t _ _ origin₀).2.1, same, lengths,
    sound₀.executions_perm origin₀ lengths ended₀,
    sound.executions_perm (acts_earlier split origin₀) lengths
      fun x member => acts_earlier split (ended₀ x member)⟩

theorem keySlot_executed (run : (traffic ι Q).Run past σ) {i : Fin shardCount}
    {m : CommandMessage ι} {response : Response} (executed : (m, response) ∈ executions i (acts past))
    {key : Key} (named : key ∈ m.command.keys) : keySlot key = i := by
  have sound := sound_run run
  obtain ⟨_, _, command, parts, origin, part⟩ :=
    sound.accepts i m (List.mem_append_right _ (List.mem_map_of_mem executed))
  exact ((sound.issues _ command parts origin).2.1.keys_here part key named).2

theorem ordered_run (run : (traffic ι Q).Run past σ) {i j : Fin shardCount}
    {now now' : Instant} {m m' : CommandMessage ι} {response response' : Response}
    (split : past = later ++ (σ₀, .execute i now m response) :: earlier)
    (earlier_one : .execute j now' m' response' ∈ acts earlier)
    (same : m'.replyTx.client = m.replyTx.client)
    (meet : ∃ key ∈ m'.command.keys, key ∈ m.command.keys) :
    m'.replyTx.number < m.replyTx.number := by
  obtain ⟨key, named', named⟩ := meet
  have executed : (m', response') ∈ executions j (acts earlier) :=
    mem_executions_iff.mpr ⟨now', earlier_one⟩
  have whole : executions i (acts past) =
      executions i (acts later) ++ (m, response) :: executions i (acts earlier) := by
    rw [split]
    simp [executions, acts]
  have here : j = i := by
    have member : (m, response) ∈ executions i (acts past) := by
      rw [whole]
      exact List.mem_append_right _ List.mem_cons_self
    have member' : (m', response') ∈ executions j (acts past) :=
      mem_executions_iff.mpr ⟨now', acts_earlier split earlier_one⟩
    rw [← keySlot_executed run member' named']
    exact keySlot_executed run member named
  subst here
  have ordered := (sound_run run).executed_ordered j
  rw [whole, List.map_append, List.map_cons, List.pairwise_append, List.pairwise_cons] at ordered
  exact ordered.2.1.1 m' (List.mem_map_of_mem executed) same.symm

/-- In every interleaving. -/
theorem delivers_run {past : List (Traffic ι Q × Act ι)} {σ : Traffic ι Q}
    (run : (traffic ι Q).Run past σ) : Delivers past where
  once _ _ _ origin single := (sound_run run).once origin single
  refused t command response answered refused := by
    rcases refused with rfl | rfl
    · exact refused_run run answered (.inl rfl)
    · exact refused_run run answered (.inr rfl)
  replied _ _ _ _ _ _ split single served := replied_run run split single served
  joined _ _ _ _ _ _ split := joined_run run split
  ordered _ _ _ _ _ _ _ split _ _ _ _ earlier_one same meet :=
    ordered_run run split earlier_one same meet

end

end

/- The shard of the key `a`, a SET of it and a GET. -/
def aSlot : Fin shardCount := ⟨7, by decide⟩

def aSet : Command := .set (utf8 "a") (.string (utf8 "v")) none

def aGet : Command := .get (utf8 "a")

def aValue : Response := .value (some (.string (utf8 "v")))

theorem plans_a {c : Command} (goes : target c = some (routeKey (utf8 "a"))) :
    Plans c [⟨aSlot, c⟩] :=
  .single goes (by decide +kernel)

theorem done_a {task : Task} {command : Command} {outcome : Outcome}
    (phase : task.phases aSlot = .done outcome) :
    ∀ x ∈ [(⟨aSlot, command⟩ : Part)].zip [outcome], task.phases x.1.shard = .done x.2 := by
  intro x member
  rw [List.mem_singleton.mp member]
  exact phase

/- One connection, and shards that are all new. -/
def aStart : Traffic Unit (SortedQueue Expiry) where
  clients _ := ⟨0, none⟩
  nodes i := ⟨.new commandChannelCapacity, .waiting (.new ⟨UInt16.ofNat i⟩ (.ofSecs 0)),
    fun _ => .empty⟩

theorem run_aStart : (@traffic Unit (SortedQueue Expiry) _ _ linux64).Run [] aStart :=
  .start ⟨fun _ => rfl, fun _ => .ofSecs 0, fun _ => rfl⟩

/-- A SET that timed out is executed late; the GET after it gets its own reply. -/
theorem delivers_late : ∃ past σ, (@traffic Unit (SortedQueue Expiry) _ _ linux64).Run past σ ∧
    .answer ⟨(), 0⟩ aSet (.error "ERR shard timeout") ∈ acts past ∧
    .answer ⟨(), 1⟩ aGet aValue ∈ acts past ∧ Delivers past := by
  let _ := linux64
  have run := run_aStart.step (.issue (c := ()) rfl (plans_a (c := aSet) rfl))
  have run := run.step (.send (c := ()) rfl List.mem_cons_self rfl rfl)
  have run := run.step (.done (c := ()) rfl List.mem_cons_self .timedOut)
  have run := run.step (.answer (c := ()) rfl rfl (@done_a _ _ .timedOut rfl))
  have run := run.step (.issue (c := ()) rfl (plans_a (c := aGet) rfl))
  have run := run.step (.send (c := ()) rfl List.mem_cons_self rfl rfl)
  have run := run.step (.work (i := aSlot) (.receive rfl rfl))
  have run := run.step (l := .execute aSlot (.ofSecs 1) ⟨aSet, (), 0⟩ .ok)
    (.work (.execute rfl rfl))
  have run := run.step (.work (i := aSlot) (.receive rfl rfl))
  have run := run.step (l := .execute aSlot (.ofSecs 1) ⟨aGet, (), 1⟩ aValue)
    (.work (.execute rfl rfl))
  have run := run.step (.done (c := ()) rfl List.mem_cons_self (.replied rfl))
  have run := run.step (.answer (c := ()) rfl rfl (@done_a _ _ (.replied aValue) rfl))
  refine ⟨_, _, run, ?_, List.mem_cons_self, delivers_run run⟩
  repeat first | exact List.mem_cons_self | apply List.mem_cons_of_mem

end Traffic

end RsDragonfly
