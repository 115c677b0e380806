import SessionBroker.Proofs.Demolition
import SessionBroker.Proofs.Ways

/-!
# Serving frames

Whoever serves a frame was told of it by the one who pushed it. So the frame was there before it was
served, and a loop that serves it ends with what the frame was told to exit with.
-/

namespace SessionBroker

namespace Serving

/-- The frames that one has heard of. -/
def note : (action : Action) → action.Reply → List FrameRef → List FrameRef
  | .frames (.push ..), frame, known => frame :: known
  | _, _, known => known

/-- Only frames that one has heard of are served. -/
def lore : Lore brokerInterface World (List FrameRef) where
  blank := []
  note action r _ := note action r
  acts _ _ := True
  calls proc known := ∀ frame ∈ proc.served?, frame ∈ known
  starts proc known := ∀ frame ∈ proc.served?, frame ∈ known
  back _ known _ known' := known' = known

/-- A program that has only frames served that it has heard of. -/
abbrev Knows {α : Type} (p : Code α) (known : List FrameRef) : Prop :=
  p.Minds lore brokerMachine (fun _ _ => True) known

/-- Programs that have no frame served. -/
def aloof : Scope brokerInterface := ⟨fun _ => True, fun p => p.served? = none, fun p => p.served? = none⟩

@[local simp] theorem aloof_acts (a : Action) : aloof.acts a := trivial
@[local simp] theorem aloof_calls {p : Proc} : aloof.calls p ↔ p.served? = none := Iff.rfl
@[local simp] theorem aloof_starts {p : Proc} : aloof.starts p ↔ p.served? = none := Iff.rfl

variable {α β : Type} {p : Code α} {f : α → Code β} {known : List FrameRef}

theorem aloof_of_steady (h : p.Within steadyScope) : p.Within aloof :=
  Program.Within.mono (S := steadyScope) (fun _ _ => trivial) (fun _ h => h.2) (fun _ h => h.2) h

/-- One who has no frame served forgets none. -/
theorem minds_aloof (h : p.Within aloof) :
    p.Minds lore brokerMachine (fun _ k => ∀ frame ∈ known, frame ∈ k) known := by
  refine h.minds (L := lore) (m := brokerMachine) (K := fun k => ∀ frame ∈ known, frame ∈ k) ?acts ?calls ?starts
    fun _ h => h
  case acts =>
    refine fun action k _ more => ⟨trivial, fun r s frame here => ?_⟩
    show frame ∈ note action r k
    unfold note
    split
    · exact List.mem_cons_of_mem _ (more frame here)
    · exact more frame here
  case calls =>
    refine fun proc k none more => ⟨fun frame here => ?_, fun r k' same => same ▸ more⟩
    cases (show Proc.served? proc = Option.none from none).symm.trans here
  case starts =>
    intro proc k none more frame here
    cases (show Proc.served? proc = Option.none from none).symm.trans here

theorem knows_aloof (h : p.Within aloof) : Knows p known :=
  (minds_aloof h).imp fun _ _ _ => trivial

theorem knows_then (h : p.Within aloof)
    (hf : ∀ a k, (∀ frame ∈ known, frame ∈ k) → Knows (f a) k) : Knows (p >>= f) known :=
  (minds_aloof h).bind hf

/-- One pushes a frame and has it served in the end. -/
theorem knows_push {kind : FrameKind} {remote : Bool} {g : FrameRef → Code α}
    (hg : ∀ frame, Knows (g frame) (frame :: known)) :
    Knows (Code.frames (.push kind remote) >>= g) known :=
  ⟨trivial, fun _ _ _ frame _ _ => hg frame⟩

theorem knows_loop {frame : FrameRef} {g : ResumeAction → Code α} (here : frame ∈ known)
    (hg : ∀ action, (g action).Within aloof) : Knows (Code.invoke (.messageLoop frame) >>= g) known :=
  ⟨fun other same => by cases Option.mem_some.mp same; exact here, fun action _ _ => knows_aloof (hg action)⟩

theorem aloof_popFrame (i : Nat) : (Aborting.popFrame i).Within aloof := by
  refine Program.within_bind ⟨trivial, fun _ => trivial⟩ fun gone => ?_
  induction gone with
  | nil => trivial
  | cons j rest ih => exact ⟨trivial, fun _ => ⟨trivial, fun _ => ih⟩⟩

attribute [local simp] aloof_popFrame

theorem aloof_leaveStop (frame : FrameRef) (action : ResumeAction) :
    (Debugging.leaveStop frame action).Within aloof := by
  refine Program.within_bind (by simp) fun _ => Program.within_bind (by simp) fun _ => ?_
  split
  · refine Program.within_bind (aloof_of_steady (by simp)) fun session => ?_
    split
    · exact Program.within_bind (aloof_of_steady (by simp)) fun _ => by simp
    · simp
  · exact Program.within_bind (by simp) fun _ => by simp

theorem knows_serviceStop (event : StopEvent) : Knows (Debugging.serviceStop event) known := by
  refine knows_then (by simp) fun _ _ _ => knows_then (by simp) fun attached _ _ => ?_
  refine knows_then (by simp) fun _ _ _ => knows_then (by simp) fun interrupted _ _ => ?_
  refine knows_then (by simp) fun _ _ _ => knows_then (aloof_of_steady (by simp)) fun session known' _ => ?_
  refine knows_push fun frame => ?_
  refine knows_then (by simp) fun settings k hk => knows_then (aloof_of_steady (by simp)) fun _ k' hk' => ?_
  refine knows_then (aloof_of_steady (by simp)) fun _ l hl => knows_then (by simp) fun exited l' hl' => ?_
  refine knows_then (by simp) fun _ last hlast => ?_
  refine knows_loop ?_ fun action => Program.within_bind (aloof_leaveStop frame action) fun _ => by simp
  exact hlast frame (hl' frame (hl frame (hk' frame (hk frame List.mem_cons_self))))

theorem knows_servicePrompt : Knows Debugging.servicePrompt known := by
  refine knows_then (aloof_of_steady (by simp)) fun session _ _ => knows_push fun frame => ?_
  exact knows_loop List.mem_cons_self fun _ => by simp

theorem knows_enterPrompt : Knows Debugging.enterPrompt known := by
  refine knows_then (by simp) fun phase _ _ => ?_
  split
  · trivial
  · refine knows_then (aloof_of_steady (by simp)) fun session _ _ => knows_push fun frame => ?_
    refine knows_then (by simp) fun promise k hk => knows_then (by simp) fun _ l hl => ?_
    refine ⟨fun other same => ?_, knows_aloof (by simp)⟩
    obtain rfl : frame = other := Option.some.inj same
    exact hl frame (hk frame List.mem_cons_self)

theorem aloof_endFrames (frames : List FrameRef) : (Aborting.endFrames frames).Within aloof := by
  induction frames with
  | nil => trivial
  | cons f rest ih =>
    simp only [Aborting.endFrames]
    split
    · refine Program.within_bind (by simp) fun _ => Program.within_bind (by simp) fun served => ?_
      split
      · exact Program.within_bind ih fun _ => by simp
      · exact Program.within_bind (by simp) fun _ => ih
    · exact ih

theorem aloof_dispose : Aborting.dispose.Within aloof := by
  refine Program.within_bind (by simp) fun phase => ?_
  split
  · simp
  · refine Program.within_bind (aloof_of_steady (by simp)) fun _ => Program.within_bind (by simp) fun live => ?_
    refine Program.within_bind (aloof_endFrames live) fun served => ?_
    exact Program.within_bind (aloof_of_steady (by simp)) fun _ => by simp

/-- Whoever is under way has only frames served that he has heard of. -/
theorem knows_body {proc : Proc} (earnest : proc.IsEarnest) (here : ∀ frame ∈ proc.served?, frame ∈ known) :
    Knows (body proc) known := by
  by_cases stir : proc.IsStir
  · cases proc
    case debuggerStopped hooks e event =>
      cases hooks with
      | plans => exact stir.elim
      | broker =>
        refine knows_then (by simp) fun alive _ _ => ?_
        split
        · trivial
        · exact Program.Minds.bind (knows_serviceStop event) fun _ _ _ => knows_aloof (by simp)
    case nestedPromptEntered hooks e =>
      cases hooks with
      | plans => exact stir.elim
      | broker =>
        refine knows_then (by simp) fun alive _ _ => ?_
        split
        · exact Program.Minds.bind knows_servicePrompt fun _ _ _ => knows_aloof (by simp)
        · trivial
    case nestedPrompt frame promise => exact knows_loop (here frame rfl) fun _ => by simp
    case messageLoop frame =>
      simp only [body, Routing.messageLoop]
      split
      · refine knows_then (by simp) fun _ k hk => ⟨fun other same => ?_, fun _ _ _ => trivial⟩
        obtain rfl : frame = other := Option.some.inj same
        exact hk frame (here frame rfl)
      · trivial
    case serveNext frame =>
      refine knows_then (by simp) fun next k hk => ?_
      cases next with
      | exit action => trivial
      | request ticket q =>
        refine knows_then (by simp) fun _ l hl => ⟨fun other same => ?_, fun _ _ _ => trivial⟩
        obtain rfl : frame = other := Option.some.inj same
        exact hl frame (hk frame (here frame rfl))
    case dispose => exact knows_aloof aloof_dispose
    case serveClient name request =>
      cases request
      case enterNestedPrompt =>
        refine knows_then (by simp) fun _ k _ => ?_
        have handled : Knows (Clients.handle .enterNestedPrompt) k :=
          Program.Minds.bind knows_enterPrompt fun _ _ _ => trivial
        exact Program.Minds.bind handled fun _ _ _ => knows_aloof (by simp [Clients.holdsBroker])
      all_goals exact stir.elim
    all_goals first | exact stir.elim | exact earnest.elim
  · exact knows_aloof (aloof_of_steady (steady_body stir))

/-! ## Frames that are known -/

/-- A frame is there as one knows it. -/
def Known (s : FrameStack) (frame : FrameRef) : Prop := frame.id < s.frames.length ∧ s.ref frame.id = frame

theorem Known.later {s t : FrameStack} {frame : FrameRef} (known : Known s frame) (later : s.Later t) :
    Known t frame :=
  ⟨known.1.trans_le later.length, (later.refs _ known.1).trans known.2⟩

theorem known_push {w u : World} {flow : Nat} {pick : Bool} {kind : FrameKind} {remote : Bool}
    {frame : FrameRef} (h : World.perform flow pick (.frames (.push kind remote)) w = some (frame, u)) :
    Known u.frames frame ∧ frame.id = w.frames.frames.length ∧ frame.kind = kind ∧
      (kind ≠ .topLevel → frame.hasMailbox = true) := by
  obtain ⟨rfl, same⟩ := Demolition.push_perform (World.frames_step h)
  have length : u.frames.frames.length = w.frames.frames.length + 1 := by simp [same, FrameStack.push]
  have made : u.frames.ref w.frames.frames.length = ⟨w.frames.frames.length, kind, remote,
      kind ≠ .topLevel || w.frames.live.any fun i => (w.frames.mailbox? i).isSome⟩ := by
    rw [same, FrameStack.ref_push, if_pos rfl]
  rw [made]
  exact ⟨⟨by simp [length], made⟩, rfl, rfl, fun named => by simp [named]⟩

/-- One has heard of a frame from the caller, or has pushed it oneself. -/
theorem known_of_recall {flow : Nat} {proc : Proc} {p q : Code α} {ds : List (Deed brokerInterface World)}
    (leads : p.Leads brokerMachine flow proc ds q) {frame : FrameRef}
    (here : frame ∈ lore.remembered (fun _ _ k => k) ds known) :
    frame ∈ known ∨ ∃ a, .act a ∈ ds ∧ Known a.after.frames frame := by
  induction leads with
  | nil => exact .inl here
  | @act ds action next pick r w u before performed ih =>
    have old : frame ∈ lore.remembered (fun _ _ k => k) ds known → frame ∈ known ∨
        ∃ a, .act a ∈ .act ⟨flow, proc, action, r, w, u⟩ :: ds ∧ Known a.after.frames frame := fun here =>
      (ih here).imp_right fun ⟨a, ha, there⟩ => ⟨a, List.mem_cons_of_mem _ ha, there⟩
    rcases action with _ | op | _ | _ | _ | _
    case frames =>
      cases op
      case push kind remote =>
        have performed : World.perform flow pick (.frames (.push kind remote)) w = some (r, u) := performed
        rcases List.mem_cons.mp here with rfl | here
        · exact .inr ⟨_, List.mem_cons_self, (known_push performed).1⟩
        · exact old here
      all_goals exact old here
    all_goals exact old here
  | call r before ih => exact (ih here).imp_right fun ⟨a, ha, there⟩ => ⟨a, List.mem_cons_of_mem _ ha, there⟩
  | start before ih => exact (ih here).imp_right fun ⟨a, ha, there⟩ => ⟨a, List.mem_cons_of_mem _ ha, there⟩

/-- A procedure serves no frame but a known one. -/
def Settled (s : FrameStack) (proc : Proc) : Prop := ∀ frame ∈ proc.served?, Known s frame

/-- Frames that are served are known. -/
structure Tenanted (c : Chronicle) : Prop where
  all : c.annals.All (Settled c.world.frames)
  log : ∀ a ∈ c.log, Settled a.before.frames a.proc

variable {c : Chronicle}

/-- Whoever is called or started next serves no frame but a known one. -/
theorem settled_next (lawful : c.Lawful) (all : c.annals.All Proc.IsEarnest) (tenanted : Tenanted c)
    {flow : Nat} {f : Flow brokerInterface} (hf : c.play.config.find? flow = some f) :
    f.code.Next (Settled c.world.frames) := by
  obtain ⟨ds, lower, tracks, leads, -⟩ := lawful.fits.tracked_of_find hf
  have here : ⟨f.proc, ds⟩ ∈ c.annals.tracks flow := tracks ▸ List.mem_cons_self
  have earnest : Proc.IsEarnest f.proc := all.1 flow _ here
  have given : ∀ frame ∈ Proc.served? f.proc, frame ∈ (Proc.served? f.proc).toList := by simp
  have minds := (Lore.minds_leads (fun _ _ _ => rfl) (knows_body earnest given) leads).1
  have known : ∀ frame ∈ lore.remembered (fun _ _ k => k) ds (Proc.served? f.proc).toList,
      Known c.world.frames frame := by
    intro frame heard
    rcases known_of_recall leads heard with given | ⟨a, done, there⟩
    · exact tenanted.all.1 flow _ here frame (by simpa using given)
    · exact there.later (lawful.since (lawful.fits.mem_log_of_track here done))
  obtain ⟨proc, code, wait⟩ := f
  cases code with
  | done | act => trivial
  | call callee next => exact fun frame served => known frame (minds.1 frame served)
  | fork other next => exact fun frame served => known frame (minds.1 frame served)

theorem tenanted_move (lawful : c.Lawful) (all : c.annals.All Proc.IsEarnest) (tenanted : Tenanted c)
    (m : Move) : Tenanted (c.move m) := by
  have later := Chronicle.later_move lawful.sound m
  have kept : c.annals.All (Settled (c.move m).world.frames) :=
    ⟨fun flow t ht frame here => (tenanted.all.1 flow t ht frame here).later later,
      fun r hr frame here => (tenanted.all.2 r hr frame here).later later⟩
  constructor
  · cases m with
    | arrive name request => exact ⟨kept.update (by simp [Settled]), kept.2⟩
    | outside change => exact kept
    | step flow pick =>
      refine kept.step (m := brokerMachine) lawful.fits fun f hf => ?_
      have next := settled_next lawful all tenanted hf
      obtain ⟨proc, code, wait⟩ := f
      cases code with
      | done | act => trivial
      | call | fork => exact fun frame here => (next frame here).later later
  · rcases c.log_move m with ⟨log, -⟩ | ⟨a, pick, log, before, -⟩
    · exact log ▸ tenanted.log
    · obtain ⟨next, wait, hf⟩ := Chronicle.find_of_log log
      obtain ⟨ds, lower, tracks, -, -⟩ := lawful.fits.tracked_of_find hf
      rw [log]
      refine List.forall_mem_cons.mpr ⟨?_, tenanted.log⟩
      rw [before]
      exact tenanted.all.1 a.flow ⟨a.proc, ds⟩ (tracks ▸ List.mem_cons_self)

theorem tenanted_moves (settings : BrokerSettings) (endpoints : List (EngineName × Endpoint))
    (main : EngineName) (host : Host) (ms : List Move) :
    Tenanted ((Chronicle.new settings endpoints main host).moves ms) := by
  refine (Chronicle.moves_keep (P := fun c => c.Lawful ∧ c.annals.All Proc.IsEarnest ∧ Tenanted c)
    (fun c m keeps => ?_) ⟨Chronicle.lawful_new .., Demolition.earnest_moves settings endpoints main host [],
      ⟨by rintro _ _ ⟨⟩, by rintro _ ⟨⟩⟩, by rintro _ ⟨⟩⟩ ms).2.2
  obtain ⟨lawful, all, tenanted⟩ := keeps
  exact ⟨lawful.move m, Demolition.earnest_move lawful.toFaithful all m, tenanted_move lawful all tenanted m⟩

/-! ## How loops end -/

/-- Whoever finds that a frame is to exit finds the exit that it has. -/
theorem exit_of_take {s t : FrameStack} {flow i : Nat} {isCancelled : Option Token → Bool} {pick : Bool}
    {action : ResumeAction} (sound : s.Sound) (boxed : (s.ref i).hasMailbox = true)
    (h : s.perform flow isCancelled pick (.take i) = some (.exit action, t)) : s.exit? i = some action := by
  obtain ⟨m, here⟩ := Option.isSome_iff_exists.mp (FrameStack.ref_hasMailbox.symm.trans boxed)
  obtain ⟨⟨next, n⟩, taken, same⟩ : ∃ p, m.take? = some p ∧
      (p.1, s.modifyMailbox i fun _ => p.2) = (.exit action, t) := by
    simpa only [FrameStack.perform, here, Option.map_eq_some_iff] using h
  obtain rfl : next = .exit action := congrArg Prod.fst same
  rcases exit : m.exit with _ | x
  · -- without an exit the mailbox would be closed, and then it has one
    rcases closed : m.closed with _ | _
    · rcases slot : m.slot with _ | ⟨id, q⟩ <;> simp [Mailbox.take?, exit, closed, slot] at taken
    · have ended := (sound.ended i m.standing (by simp [FrameStack.standing, here])).2 closed
      simp [Mailbox.standing, exit] at ended
  · have told : x = action ∧ m = n := by simpa [Mailbox.take?, exit] using taken
    simp [FrameStack.exit?, here, exit, told.1]

/-- A loop that has ended gave what its frame was told to exit with. -/
def EndsTold (c : Chronicle) : Return brokerInterface World → Prop
  | ⟨_, .messageLoop frame, action, _⟩ | ⟨_, .serveNext frame, action, _⟩ =>
    frame.hasMailbox = true → c.world.frames.exit? frame.id = some action
  | _ => True

theorem comes_serveNext (flow : Nat) (frame : FrameRef) :
    (Routing.serveNext frame).Comes brokerMachine flow (.serveNext frame) (fun ds action =>
      (∃ before after, .act ⟨flow, .serveNext frame, .frames (.take frame.id), .exit action, before, after⟩ ∈ ds) ∨
        .call (.serveNext frame) action ∈ ds) [] := by
  intro pick next w u _
  cases next with
  | exit action => exact .inl ⟨w, u, List.mem_cons_self⟩
  | request ticket q => exact fun _ action => .inr List.mem_cons_self

theorem comes_messageLoop (flow : Nat) (frame : FrameRef) (boxed : frame.hasMailbox = true) :
    (Routing.messageLoop frame).Comes brokerMachine flow (.messageLoop frame) (fun ds action =>
      .call (.serveNext frame) action ∈ ds) [] := by
  unfold Routing.messageLoop
  rw [if_pos boxed]
  exact fun _ _ _ _ _ action => List.mem_cons_self

theorem endsTold (lawful : c.Lawful) (heard : c.annals.Heard) (tenanted : Tenanted c) :
    ∀ r ∈ c.returns, EndsTold c r := by
  refine heard.returns.all fun r here told => ?_
  obtain ⟨flow, proc, result, ds⟩ := r
  have leads := lawful.fits.returned _ here
  cases proc
  case serveNext frame =>
    intro boxed
    rcases (comes_serveNext flow frame).leads leads with ⟨w, u, done⟩ | called
    · have logged := lawful.fits.mem_log_of_return here done
      have known := tenanted.log _ logged frame rfl
      obtain ⟨pick, performed⟩ := lawful.performed logged
      refine (lawful.since_before logged).exits _ _ ?_
      refine exit_of_take (lawful.sound_before logged) ?_ (World.frames_step performed)
      rw [known.2]
      exact boxed
    · obtain ⟨ds', -, ends⟩ := told _ _ called
      exact ends boxed
  case messageLoop frame =>
    intro boxed
    obtain ⟨ds', -, ends⟩ := told _ _ ((comes_messageLoop flow frame boxed).leads leads)
    exact ends boxed
  all_goals trivial

end Serving

end SessionBroker
