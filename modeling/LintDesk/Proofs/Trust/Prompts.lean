import LintDesk.Desk.Step
import LintDesk.Proofs.Trust.Renewal

/-! # Questions to the user

The user is asked one question at a time, and about the same rules at most once between two
invalidations (`prompts_in_turn`). A workspace that is trusted when a request comes in is not asked
about, but trust is not looked up again while the request waits for its turn (`prompted_untrusted`).
-/

namespace LintDesk

/-- The epoch in which a request has asked that still has its turn. -/
def Passage.turn? : Passage → Option Nat
  | asking epoch => some epoch
  | loading epoch true _ _ => some epoch
  | _ => none

/-- The rules of a status that is an outcome. -/
def RuleStatus.rules? : RuleStatus → Option (List CustomRule)
  | loaded rules => some rules
  | blocked => some []
  | _ => none

namespace Gate

theorem settled?_eq (g : Gate) (key : RuleKey) : g.settled? key = (g.state key).rules? := by
  unfold settled?
  cases g.state key <;> rfl

theorem settled?_put (g : Gate) (key : RuleKey) (s : RuleStatus) (k : RuleKey) :
    (g.put key s).settled? k = if k = key then s.rules? else g.settled? k := by
  rw [settled?_eq, state_put, settled?_eq]
  split <;> rfl

theorem settled?_settle (g : Gate) (key : RuleKey) (epoch : Nat) (s : RuleStatus) (k : RuleKey) :
    (g.settle key epoch s).settled? k =
      if g.epoch = epoch ∧ k = key then s.rules? else g.settled? k := by
  unfold settle
  by_cases hepoch : g.epoch = epoch
  · simp [hepoch, settled?_put]
  · simp [hepoch]

@[simp] theorem settled?_finish (g : Gate) (holds : Bool) (rules : List CustomRule) (k : RuleKey) :
    (g.finish holds rules).2.settled? k = g.settled? k := by
  cases holds <;> rfl

@[simp] theorem holder_settle (g : Gate) (key : RuleKey) (epoch : Nat) (s : RuleStatus) :
    (g.settle key epoch s).holder = g.holder := by
  unfold settle
  split <;> rfl

/-- What a step of a request does to the turns and to what is known. `turn?` is the epoch in which
the request has asked, if it has its turn. -/
structure Proceeds (g : Gate) (who : Nat) (r : RuleRequest) (turn? : Option Nat)
    (result : Passage × Gate) : Prop where
  epoch : result.2.epoch = g.epoch
  known : ∀ key, (g.settled? key).isSome → (result.2.settled? key).isSome
  /-- Who comes out with the turn holds it. -/
  turn : result.1.turn? ≠ none → result.2.holder = some who
  /-- Nobody loses the turn to another. -/
  others : ∀ other, other ≠ who → g.holder = some other → result.2.holder = some other
  /-- The turn is given up when the outcome is known, unless the epoch is over. -/
  keeps : turn? = some g.epoch →
    result.1.turn? = some g.epoch ∨ (result.2.settled? r.key).isSome
  /-- A question is put when nothing is known and nobody else has the turn. -/
  asks : ∀ epoch, result.1 = .asking epoch → epoch = g.epoch ∧ turn? = none ∧
    g.settled? r.key = none ∧ ∀ other, g.holder = some other → other = who

variable {g : Gate} {who : Nat} {r : RuleRequest}

/-- A request stores its outcome and gives up its turn, if it has it. -/
theorem proceeds_settle {epoch : Nat} {s : RuleStatus} (hs : s.rules?.isSome) (holds : Bool)
    (rules : List CustomRule) (hholds : holds = true → g.holder = some who) :
    g.Proceeds who r (if holds then some epoch else none)
      ((g.settle r.key epoch s).finish holds rules) where
  epoch := by rw [epoch_finish, epoch_settle]
  known := by
    intro key hkey
    rw [settled?_finish, settled?_settle]
    split
    · exact hs
    · exact hkey
  turn := fun hturn => absurd rfl hturn
  others := by
    intro other hother hholder
    cases holds with
    | false => exact (g.holder_settle r.key epoch s).trans hholder
    | true => exact absurd (Option.some.inj (hholder.symm.trans (hholds rfl))) hother
  keeps := by
    intro hturn
    have hepoch : g.epoch = epoch := by
      cases holds with
      | false => cases hturn
      | true => exact (Option.some.inj hturn).symm
    rw [settled?_finish, settled?_settle, if_pos ⟨hepoch, rfl⟩]
    exact .inr hs
  asks := nofun

theorem proceeds_loading (epoch : Nat) (holds : Bool) (left : List String) (rules : List CustomRule)
    (hholds : holds = true → g.holder = some who) :
    g.Proceeds who r (if holds then some epoch else none) (.loading epoch holds left rules, g) := by
  refine ⟨rfl, fun _ hkey => hkey, fun hturn => ?_, fun _ _ hholder => hholder, fun hturn => ?_,
    nofun⟩
  · cases holds with
    | false => exact absurd rfl hturn
    | true => exact hholds rfl
  · cases holds with
    | false => cases hturn
    | true => exact .inl hturn

theorem proceeds_load (epoch : Nat) (holds : Bool) (left : List String) (rules : List CustomRule)
    (hholds : holds = true → g.holder = some who) :
    g.Proceeds who r (if holds then some epoch else none) (g.load r epoch holds left rules) := by
  cases left with
  | nil => exact proceeds_settle rfl holds rules hholds
  | cons location rest => exact proceeds_loading epoch holds _ rules hholds

theorem proceeds_receive {epoch : Nat} {holds : Bool} {left : List String} {rules : List CustomRule}
    {text : Except Fault String} {journal journal' : Journal} {p : Passage} {g' : Gate}
    (hholds : holds = true → g.holder = some who)
    (hreceive : g.receive r text journal (.loading epoch holds left rules) = (p, g', journal')) :
    g.Proceeds who r (if holds then some epoch else none) (p, g') := by
  cases left with
  | nil =>
      cases hreceive
      exact proceeds_loading epoch holds [] rules hholds
  | cons location left =>
      obtain ⟨found, journal'', -, hload⟩ :=
        g.receive_loading r text journal epoch holds location left rules
      obtain ⟨rfl, rfl, -⟩ : _ = p ∧ _ = g' ∧ _ := by
        simpa only [Prod.mk.injEq] using hload.symm.trans hreceive
      exact proceeds_load epoch holds left _ hholds

theorem receive_ne_asking {epoch epoch' : Nat} {holds : Bool} {left : List String}
    {rules : List CustomRule} (text : Except Fault String) (journal : Journal) :
    (g.receive r text journal (.loading epoch holds left rules)).1 ≠ .asking epoch' := by
  cases left with
  | nil => exact nofun
  | cons location left =>
      obtain ⟨found, journal', -, hload⟩ :=
        g.receive_loading r text journal epoch holds location left rules
      rw [hload]
      cases left <;> exact nofun

theorem proceeds_takeTurn (hholder : g.holder = some who) :
    g.Proceeds who r none (g.takeTurn r) := by
  have hothers : ∀ other, g.holder = some other → other = who :=
    fun other h => Option.some.inj (h.symm.trans hholder)
  unfold takeTurn
  split
  · refine ⟨rfl, fun _ hkey => hkey, fun hturn => absurd rfl hturn, fun other hother h => ?_, nofun,
      nofun⟩
    exact absurd (hothers other h) hother
  · next hunknown =>
      refine ⟨rfl, fun key hkey => ?_, fun _ => hholder, fun _ _ h => h, nofun, ?_⟩
      · rw [settled?_put]
        split
        · next hown => simp [hown, hunknown] at hkey
        · exact hkey
      · intro epoch hepoch
        exact ⟨(Passage.asking.inj hepoch).symm, rfl, hunknown, hothers⟩

theorem proceeds_enter (g : Gate) (who : Nat) (isTrusted : String → Bool) (r : RuleRequest) :
    g.Proceeds who r none (g.enter who isTrusted r) := by
  rcases g.enter_ways who isTrusted r with ⟨rules, -, henter⟩ | henter |
    ⟨-, ⟨hholder, henter⟩ | ⟨-, henter⟩⟩
  · rw [henter]
    exact ⟨rfl, fun _ hkey => hkey, fun hturn => absurd rfl hturn, fun _ _ h => h, nofun, nofun⟩
  · rw [henter]
    exact proceeds_load g.epoch false r.locations.value [] nofun
  · rw [henter]
    have hturn : { g with holder := some who }.Proceeds who r none
        ({ g with holder := some who }.takeTurn r) := proceeds_takeTurn rfl
    refine ⟨hturn.epoch, hturn.known, hturn.turn, fun other _ h => ?_, nofun, fun epoch hasks => ?_⟩
    · rw [hholder] at h
      cases h
    · obtain ⟨hepoch, -, hunknown, -⟩ := hturn.asks epoch hasks
      refine ⟨hepoch, rfl, hunknown, fun other h => ?_⟩
      rw [hholder] at h
      cases h
  · rw [henter]
    exact ⟨rfl, fun _ hkey => hkey, fun hturn => absurd rfl hturn, fun _ _ h => h, nofun, nofun⟩

theorem proceeds_answer (epoch : Nat) (choice : Option TrustChoice)
    (hholder : g.holder = some who) : g.Proceeds who r (some epoch) (g.answer r epoch choice) := by
  by_cases hchoice : Refuses choice
  · rw [g.answer_of_refuses r epoch hchoice]
    exact proceeds_settle rfl true [] fun _ => hholder
  · rw [g.answer_of_agrees r epoch hchoice]
    exact proceeds_load epoch true r.locations.value [] fun _ => hholder

end Gate

namespace GateTrace

variable {s : GateTrace} {log : List GateMark} {who : Nat} {r : RuleRequest} {trusted : Bool}
  {since : List GateMark} {key : RuleKey}

/-! ### What was asked -/

/-- The user was asked about a key since the last invalidation. -/
def AskedNow (log : List GateMark) (key : RuleKey) : Prop :=
  ∃ (later : List GateMark) (who : Nat) (locations : List String) (earlier : List GateMark)
    (r : RuleRequest) (trusted : Bool) (since : List GateMark),
    log = later ++ .asked who locations :: earlier ∧ .invalidated ∉ later ∧
      UnderWay earlier who r trusted since ∧ r.key = key

/-- A question is put for a request about which the user was not asked since the last invalidation,
and when all questions before it have been answered. -/
def InOrderToAsk (earlier : List GateMark) (who : Nat) (locations : List String) : Prop :=
  (∃ r trusted since, UnderWay earlier who r trusted since ∧ r.locations.value = locations ∧
    ¬AskedNow earlier r.key) ∧
  ∀ (mid : List GateMark) (other : Nat) (locations' : List String) (older : List GateMark),
    earlier = mid ++ .asked other locations' :: older → ∃ choice, .answered other choice ∈ mid

/-- Who has asked holds the turn, and its outcome is known when the turn is given up. -/
structure InTurn (s : GateTrace) : Prop where
  turn : ∀ who r p, s.requests who = some (r, p) → p.turn? ≠ none → s.gate.holder = some who
  once : ∀ key, AskedNow s.log key → (s.gate.settled? key).isSome ∨
    ∃ who r p, s.requests who = some (r, p) ∧ r.key = key ∧ p.turn? = some s.gate.epoch
  asked : Throughout (fun earlier m =>
    ∀ who locations, m = .asked who locations → InOrderToAsk earlier who locations) s.log
  answered : ∀ (later : List GateMark) (who : Nat) (locations : List String)
    (earlier : List GateMark), s.log = later ++ .asked who locations :: earlier →
    (∃ choice, .answered who choice ∈ later) ∨ ∃ r epoch, s.requests who = some (r, .asking epoch)

theorem AskedNow.of_append {marks : List GateMark} (h : AskedNow (marks ++ log) key)
    (hmarks : ∀ who locations, .asked who locations ∉ marks) : AskedNow log key := by
  obtain ⟨later, who, locations, earlier, r, trusted, since, hlog, hvalid, hunder, hkey⟩ := h
  obtain ⟨later', rfl, hlog'⟩ := append_cut_of_not_mem hlog (hmarks who locations)
  exact ⟨later', who, locations, earlier, r, trusted, since, hlog',
    fun hm => hvalid (List.mem_append_right _ hm), hunder, hkey⟩

theorem AskedNow.of_cons {locations : List String} (h : AskedNow (.asked who locations :: log) key)
    (hunder : UnderWay log who r trusted since) : key = r.key ∨ AskedNow log key := by
  obtain ⟨later, other, locations', earlier, r', trusted', since', hlog, hvalid, hunder', hkey⟩ := h
  cases later with
  | nil =>
      obtain ⟨hmark, rfl⟩ := List.cons.inj hlog
      obtain ⟨rfl, -⟩ := GateMark.asked.inj hmark
      exact .inl (hkey.symm.trans (congrArg _ (hunder'.unique hunder).2.1))
  | cons m later =>
      obtain ⟨rfl, rfl⟩ := List.cons.inj hlog
      exact .inr ⟨later, other, locations', earlier, r', trusted', since', rfl,
        fun hm => hvalid (List.mem_cons_of_mem _ hm), hunder', hkey⟩

theorem asked_not_mem_marks {p : Passage} (h : ∀ epoch, p ≠ .asking epoch) (other : Nat)
    (locations : List String) : .asked other locations ∉ p.marks who r := by
  cases p with
  | asking epoch => exact absurd rfl (h epoch)
  | _ => simp [Passage.marks]

theorem asked_not_mem_newRules {g g' : Gate} (other : Nat) (locations : List String) :
    .asked other locations ∉ g.newRules who key g' := by
  intro hm
  obtain ⟨rules, hrules⟩ := mem_newRules hm
  cases hrules

/-! ### One step -/

/-- A caller's request takes a step after some marks were noted; `turn?` is the epoch in which it
has asked, if it has its turn. -/
structure Steps (s : GateTrace) (who : Nat) (r : RuleRequest) (noted : List GateMark)
    (turn? : Option Nat) (p : Passage) (g : Gate) : Prop where
  proceeds : s.gate.Proceeds who r turn? (p, g)
  quiet : ∀ other locations, .asked other locations ∉ noted
  was : ∀ r' p', s.requests who = some (r', p') → p'.turn? = turn? ∧ (turn? ≠ none → r' = r)
  answered : ∀ r' epoch, s.requests who = some (r', .asking epoch) →
    ∃ choice, .answered who choice ∈ noted
  underWay : ∃ trusted since, UnderWay (noted ++ s.log) who r trusted since

section Step

variable {noted : List GateMark} {turn? : Option Nat} {p : Passage} {g : Gate}

theorem Steps.asked_inner (hstep : Steps s who r noted turn? p g) (other : Nat)
    (locations : List String) :
    .asked other locations ∉ s.gate.newRules who r.key g ++ noted := by
  rw [List.mem_append, not_or]
  exact ⟨asked_not_mem_newRules other locations, hstep.quiet other locations⟩

/-- When a question is put, no other is open, and nobody asked about the same key in this epoch. -/
theorem Steps.inOrderToAsk (hstep : Steps s who r noted turn? p g) (h : InTurn s) {epoch : Nat}
    (hasks : p = .asking epoch) :
    InOrderToAsk (s.gate.newRules who r.key g ++ (noted ++ s.log)) who r.locations.value := by
  obtain ⟨-, hnone, hunknown, honly⟩ := hstep.proceeds.asks epoch hasks
  -- who has the turn is this caller, but it does not have it yet
  have hnobody : ∀ other r' p', s.requests other = some (r', p') → p'.turn? = none := by
    intro other r' p' hrequest
    by_contra hturn
    obtain rfl := honly other (h.turn other r' p' hrequest hturn)
    exact hturn ((hstep.was r' p' hrequest).1.trans hnone)
  refine ⟨?_, ?_⟩
  · obtain ⟨trusted, since, hunder⟩ := hstep.underWay
    refine ⟨r, trusted, _, hunder.append _ fun m hm => (newRules_inner hm).1 who, rfl, ?_⟩
    intro hasked
    rw [← List.append_assoc] at hasked
    rcases h.once r.key (hasked.of_append hstep.asked_inner) with hknown | ⟨other, r', p', hrequest,
      -, hturn⟩
    · rw [hunknown] at hknown
      cases hknown
    · rw [hnobody other r' p' hrequest] at hturn
      cases hturn
  · intro mid other locations' older hlog
    rw [← List.append_assoc] at hlog
    obtain ⟨later, rfl, hlog'⟩ := append_cut_of_not_mem hlog (hstep.asked_inner other locations')
    rcases h.answered later other locations' older hlog' with ⟨choice, hchoice⟩ |
      ⟨r', epoch', hrequest⟩
    · exact ⟨choice, List.mem_append_right _ hchoice⟩
    · cases hnobody other r' _ hrequest

/-- What was asked in this epoch before the step is known after it, or the turn is still held. -/
theorem Steps.once (hstep : Steps s who r noted turn? p g) (h : InTurn s)
    (hasked : AskedNow (s.gate.newRules who r.key g ++ (noted ++ s.log)) key) :
    (g.settled? key).isSome ∨ ∃ other r' p', Function.update s.requests who (some (r, p)) other =
      some (r', p') ∧ r'.key = key ∧ p'.turn? = some g.epoch := by
  rw [← List.append_assoc] at hasked
  rw [hstep.proceeds.epoch]
  rcases h.once key (hasked.of_append hstep.asked_inner) with hknown |
    ⟨other, r', p', hrequest, rfl, hturn⟩
  · exact .inl (hstep.proceeds.known key hknown)
  · by_cases heq : other = who
    · subst heq
      obtain ⟨hwas, hsame⟩ := hstep.was r' p' hrequest
      rw [hturn] at hwas
      obtain rfl := hsame (by simp [← hwas])
      rcases hstep.proceeds.keeps hwas.symm with hkeeps | hknown
      · exact .inr ⟨other, r', p, Function.update_self .., rfl, hkeeps⟩
      · exact .inl hknown
    · exact .inr ⟨other, r', p', (Function.update_of_ne heq ..).trans hrequest, rfl, hturn⟩

/-- A question that was put before the step is answered after it, or still open. -/
theorem Steps.answered_or_open (hstep : Steps s who r noted turn? p g) (h : InTurn s)
    {later older : List GateMark} {other : Nat} {locations : List String}
    (hcut : s.gate.newRules who r.key g ++ (noted ++ s.log) =
      later ++ .asked other locations :: older) :
    (∃ choice, .answered other choice ∈ later) ∨
      ∃ r' epoch,
        Function.update s.requests who (some (r, p)) other = some (r', .asking epoch) := by
  rw [← List.append_assoc] at hcut
  obtain ⟨later', rfl, hcut'⟩ := append_cut_of_not_mem hcut (hstep.asked_inner other locations)
  rcases h.answered later' other locations older hcut' with
    ⟨choice, hchoice⟩ | ⟨r', epoch, hrequest⟩
  · exact .inl ⟨choice, List.mem_append_right _ hchoice⟩
  · by_cases heq : other = who
    · subst heq
      obtain ⟨choice, hchoice⟩ := hstep.answered r' epoch hrequest
      exact .inl ⟨choice, by simp [hchoice]⟩
    · exact .inr ⟨r', epoch, (Function.update_of_ne heq ..).trans hrequest⟩

theorem Steps.turn (hstep : Steps s who r noted turn? p g) (h : InTurn s) {other : Nat}
    {r' : RuleRequest} {p' : Passage}
    (hrequest : Function.update s.requests who (some (r, p)) other = some (r', p'))
    (hturn : p'.turn? ≠ none) : g.holder = some other := by
  by_cases heq : other = who
  · subst heq
    obtain ⟨-, rfl⟩ : r = r' ∧ p = p' := by simpa using hrequest
    exact hstep.proceeds.turn hturn
  · rw [Function.update_of_ne heq] at hrequest
    exact hstep.proceeds.others other heq (h.turn other r' p' hrequest hturn)

theorem Steps.asked (hstep : Steps s who r noted turn? p g) (h : InTurn s) :
    Throughout (fun earlier m => ∀ who locations, m = .asked who locations →
      InOrderToAsk earlier who locations)
      (s.gate.newRules who r.key g ++ (noted ++ s.log)) := by
  rw [← List.append_assoc]
  refine h.asked.append fun m hm earlier other locations heq => ?_
  exact absurd (heq ▸ hm) (hstep.asked_inner other locations)

theorem InTurn.move (h : InTurn s) (noted : List GateMark) (turn? : Option Nat)
    (hstep : Steps s who r noted turn? p g) :
    InTurn ({ s with log := noted ++ s.log }.move who r (p, g)) := by
  by_cases hasks : ∃ epoch, p = .asking epoch
  · -- the step puts a question
    obtain ⟨epoch, rfl⟩ := hasks
    have hown : Function.update s.requests who (some (r, .asking epoch)) who = _ :=
      Function.update_self ..
    refine ⟨fun _ _ _ => hstep.turn h, fun key hasked => ?_, ⟨?_, hstep.asked h⟩, ?_⟩
    · obtain ⟨trusted, since, hunder⟩ := hstep.underWay
      have hunder' := hunder.append (s.gate.newRules who r.key g)
        fun m hm => (newRules_inner hm).1 who
      rcases AskedNow.of_cons hasked hunder' with rfl | hasked
      · refine .inr ⟨who, r, _, hown, rfl, ?_⟩
        exact congrArg some ((hstep.proceeds.asks epoch rfl).1.trans hstep.proceeds.epoch.symm)
      · exact hstep.once h hasked
    · intro other locations heq
      obtain ⟨rfl, rfl⟩ := GateMark.asked.inj heq
      exact hstep.inOrderToAsk h rfl
    · intro later other locations older hcut
      cases later with
      | nil =>
          obtain ⟨rfl, -⟩ := GateMark.asked.inj (List.cons.inj hcut).1
          exact .inr ⟨r, epoch, hown⟩
      | cons m later =>
          rcases hstep.answered_or_open h (List.cons.inj hcut).2 with ⟨choice, hchoice⟩ | hopen
          · exact .inl ⟨choice, List.mem_cons_of_mem _ hchoice⟩
          · exact .inr hopen
  · have hmarks : ∀ other locations, .asked other locations ∉ p.marks who r :=
      asked_not_mem_marks (not_exists.mp hasks)
    refine ⟨fun _ _ _ => hstep.turn h, fun key hasked => ?_, ?_, ?_⟩
    · exact hstep.once h (hasked.of_append hmarks)
    · refine (hstep.asked h).append fun m hm earlier other locations heq => ?_
      exact absurd (heq ▸ hm) (hmarks other locations)
    · intro later other locations older hcut
      obtain ⟨later', rfl, hcut'⟩ := append_cut_of_not_mem hcut (hmarks other locations)
      rcases hstep.answered_or_open h hcut' with ⟨choice, hchoice⟩ | hopen
      · exact .inl ⟨choice, List.mem_append_right _ hchoice⟩
      · exact .inr hopen

theorem InTurn.invalidate (h : InTurn s) :
    InTurn ({ s with gate := s.gate.invalidate }.note .invalidated) := by
  refine ⟨h.turn, ?_, ⟨nofun, h.asked⟩, ?_⟩
  · rintro key ⟨later, who, locations, earlier, r, trusted, since, hlog, hvalid, -⟩
    cases later with
    | nil => cases (List.cons.inj hlog).1
    | cons m later => exact absurd ((List.cons.inj hlog).1 ▸ List.mem_cons_self) hvalid
  · intro later who locations earlier hlog
    cases later with
    | nil => cases (List.cons.inj hlog).1
    | cons m later =>
        rcases h.answered later who locations earlier (List.cons.inj hlog).2 with
          ⟨choice, hchoice⟩ | hopen
        · exact .inl ⟨choice, List.mem_cons_of_mem _ hchoice⟩
        · exact .inr hopen

end Step

end GateTrace

/-! ### The list of trusted workspaces -/

/-- A trace with the list of trusted workspaces, and the files it may be kept in. -/
structure TrustTrace where
  trace : GateTrace
  ledger : TrustLedger
  files : Files

namespace TrustTrace

open GateTrace

/-- Whether the workspace of a request is trusted now. -/
def trusts (l : TrustTrace) (r : RuleRequest) : Bool :=
  r.workspace.any (l.ledger.isTrusted l.files)

/-- A workspace that is always allowed is put on the list, if that can be done. -/
def remember (l : TrustTrace) (r : RuleRequest) (choice : Option TrustChoice) : TrustTrace :=
  match choice, r.workspace with
  | some .alwaysAllow, some workspace =>
    match l.ledger.trust l.files workspace with
    | .ok (ledger, files) => { l with ledger, files }
    | .error _ => l
  | _, _ => l

theorem followPassage_keeps (d : Desk) (task : Nat) (client : RuleClient) (r : RuleRequest)
    (p : Passage) : (d.followPassage task client r p).desk.trust = d.trust ∧
      (d.followPassage task client r p).desk.files = d.files := by
  cases p with
  | queued => exact ⟨rfl, rfl⟩
  | asking epoch =>
      simp only [Desk.followPassage, Desk.after]
      split <;> exact ⟨rfl, rfl⟩
  | loading epoch holds left rules => exact ⟨rfl, rfl⟩
  | done rules =>
      cases client with
      | direct => exact ⟨rfl, rfl⟩
      | collection c config ignores =>
          simp only [Desk.followPassage, Desk.useRules, Desk.invoke]
          split
          · simp only [Desk.useViolations]
            split
            · simp only [Desk.publish]
              split <;> exact ⟨rfl, rfl⟩
            · exact ⟨rfl, rfl⟩
            · exact ⟨rfl, rfl⟩
          · exact ⟨rfl, rfl⟩

/-- The list and the files of a desk change just so when the user answers. -/
theorem takeAnswer_remembers (d : Desk) (task : Nat) (client : RuleClient) (r : RuleRequest)
    (epoch : Nat) (trace : GateTrace) :
    let l := remember ⟨trace, d.trust, d.files⟩ r d.choices.head?.join
    (d.takeAnswer task client r epoch).desk.trust = l.ledger ∧
      (d.takeAnswer task client r epoch).desk.files = l.files := by
  have hputGate : ∀ (d : Desk) (g : Gate),
      (d.putGate task g).trust = d.trust ∧ (d.putGate task g).files = d.files := by
    intro d g
    simp only [Desk.putGate, Desk.wake]
    repeat' split
    all_goals exact ⟨rfl, rfl⟩
  dsimp only
  unfold Desk.takeAnswer remember
  dsimp only
  rw [(followPassage_keeps ..).1, (followPassage_keeps ..).2, (hputGate ..).1, (hputGate ..).2]
  generalize d.choices.head?.join = choice
  cases choice with
  | none => exact ⟨rfl, rfl⟩
  | some choice =>
      cases choice with
      | alwaysAllow =>
          cases r.workspace with
          | none => exact ⟨rfl, rfl⟩
          | some workspace =>
              dsimp only
              cases d.trust.trust d.files workspace <;> exact ⟨rfl, rfl⟩
      | _ => exact ⟨rfl, rfl⟩

/-- One step. A request that waits goes on when it has been given the turn; the list and the files
may also be changed by others. -/
inductive Step (l : TrustTrace) : TrustTrace → Prop
  | enter (who : Nat) (r : RuleRequest)
      (hfree : ∀ r' p, l.trace.requests who = some (r', p) → ∃ rules, p = .done rules) :
      Step l { l with
        trace := (l.trace.note (.entered who r (l.trusts r))).move who r
          (l.trace.gate.enter who (l.ledger.isTrusted l.files) r) }
  | takeTurn {who : Nat} {r : RuleRequest} (h : l.trace.requests who = some (r, .queued))
      (hturn : l.trace.gate.holder = some who) :
      Step l { l with trace := l.trace.move who r (l.trace.gate.takeTurn r) }
  | answer {who : Nat} {r : RuleRequest} {epoch : Nat}
      (h : l.trace.requests who = some (r, .asking epoch)) (choice : Option TrustChoice) :
      Step l { l.remember r choice with
        trace := (l.trace.note (.answered who choice)).move who r
          (l.trace.gate.answer r epoch choice) }
  | receive {who : Nat} {r : RuleRequest} {epoch : Nat} {holds : Bool} {left : List String}
      {rules : List CustomRule}
      (h : l.trace.requests who = some (r, .loading epoch holds left rules))
      (text : Except Fault String) {journal journal' : Journal} {p : Passage} {g : Gate}
      (hreceive : l.trace.gate.receive r text journal (.loading epoch holds left rules) =
        (p, g, journal')) :
      Step l { l with trace := l.trace.move who r (p, g) }
  | invalidate :
      Step l { l with
        trace := { l.trace with gate := l.trace.gate.invalidate }.note .invalidated }
  | drift {l' : TrustTrace} (h : l'.trace = l.trace) : Step l l'

/-- All that can happen, from a gate at which nobody has been yet. -/
def Reachable (l : TrustTrace) : Prop :=
  ∃ l₀ : TrustTrace, l₀.trace.IsFresh ∧ Relation.ReflTransGen Step l₀ l

variable {l l' : TrustTrace}

theorem Step.trace (h : Step l l') : l'.trace = l.trace ∨ l.trace.Step l'.trace := by
  cases h with
  | enter who r hfree => exact .inr (.enter who _ r hfree)
  | takeTurn h _ => exact .inr (.takeTurn h)
  | answer h choice => exact .inr (.answer h choice)
  | receive h text hreceive => exact .inr (.receive h text hreceive)
  | invalidate => exact .inr .invalidate
  | drift h => exact .inl h

theorem Reachable.trace (h : l.Reachable) : l.trace.Reachable := by
  obtain ⟨l₀, hfresh, hrun⟩ := h
  refine ⟨l₀.trace, hfresh, ?_⟩
  induction hrun with
  | refl => exact .refl
  | tail _ hstep ih =>
      rcases hstep.trace with hsame | hhouse
      · rwa [hsame]
      · exact ih.tail hhouse

theorem Reachable.step (h : l.Reachable) (hstep : Step l l') : l'.Reachable := by
  obtain ⟨l₀, hfresh, hrun⟩ := h
  exact ⟨l₀, hfresh, hrun.tail hstep⟩

/-- A caller's request is the one that came in last. -/
theorem Reachable.underWay (h : l.Reachable) {who : Nat} {r : RuleRequest} {p : Passage}
    (hrequest : l.trace.requests who = some (r, p)) :
    ∃ trusted since, UnderWay l.trace.log who r trusted since := by
  obtain ⟨finds, hreach⟩ := LoadTrace.exists_reachable h.trace
  exact ((LoadTrace.tracked_of_reachable hreach).requests who r p (by simp) hrequest).underWay

theorem inTurn_step (h : InTurn l.trace) (hreach : l.Reachable) (hstep : Step l l') :
    InTurn l'.trace := by
  cases hstep with
  | enter who r hfree =>
      refine h.move [.entered who r (l.trusts r)] none
        ⟨Gate.proceeds_enter .., by simp, ?_, ?_, _, [], ⟨_, rfl⟩, by simp⟩
      · intro r' p' hrequest
        obtain ⟨rules, rfl⟩ := hfree r' p' hrequest
        exact ⟨rfl, by simp⟩
      · intro r' epoch hrequest
        obtain ⟨rules, hrules⟩ := hfree r' _ hrequest
        cases hrules
  | @takeTurn who r hrequest hturn =>
      refine h.move [] none
        ⟨Gate.proceeds_takeTurn hturn, by simp, ?_, ?_, hreach.underWay hrequest⟩
      · intro r' p' hrequest'
        cases hrequest.symm.trans hrequest'
        exact ⟨rfl, by simp⟩
      · intro r' epoch hrequest'
        cases hrequest.symm.trans hrequest'
  | @answer who r epoch hrequest choice =>
      obtain ⟨trusted, since, hunder⟩ := hreach.underWay hrequest
      have hholder := h.turn who r _ hrequest (by simp [Passage.turn?])
      refine h.move [.answered who choice] (some epoch)
        ⟨Gate.proceeds_answer epoch choice hholder, by simp, ?_, ?_, trusted, _,
          hunder.append [_] (by simp [GateMark.enters])⟩
      · intro r' p' hrequest'
        cases hrequest.symm.trans hrequest'
        exact ⟨rfl, fun _ => rfl⟩
      · exact fun _ _ _ => ⟨choice, List.mem_cons_self⟩
  | @receive who r epoch holds left rules hrequest text journal journal' p g hreceive =>
      have hholds : holds = true → l.trace.gate.holder = some who := by
        rintro rfl
        exact h.turn who r _ hrequest (by simp [Passage.turn?])
      refine h.move [] (if holds then some epoch else none)
        ⟨Gate.proceeds_receive hholds hreceive, by simp, ?_, ?_, hreach.underWay hrequest⟩
      · intro r' p' hrequest'
        cases hrequest.symm.trans hrequest'
        exact ⟨by cases holds <;> rfl, fun _ => rfl⟩
      · intro r' epoch' hrequest'
        cases hrequest.symm.trans hrequest'
  | invalidate => exact h.invalidate
  | drift hsame => rwa [hsame]

theorem inTurn_of_reachable (h : l.Reachable) : InTurn l.trace := by
  obtain ⟨l₀, ⟨hstates, hrequests, hlog⟩, hrun⟩ := h
  induction hrun with
  | refl =>
      refine ⟨?_, ?_, by rw [hlog]; trivial, ?_⟩
      · intro who r p hrequest
        rw [hrequests] at hrequest
        cases hrequest
      · rintro key ⟨later, who, locations, earlier, r, trusted, since, hcut, -⟩
        rw [hlog] at hcut
        simp at hcut
      · intro later who locations earlier hcut
        rw [hlog] at hcut
        simp at hcut
  | tail hprev hstep ih => exact inTurn_step ih ⟨l₀, ⟨hstates, hrequests, hlog⟩, hprev⟩ hstep

/-! ### Two requests of one workspace -/

/-- A request of the workspace `w` for one rule file. -/
def ruleFile (name : String) : RuleRequest :=
  ⟨⟨[name], .workspace⟩, some "w", none⟩

/-- While the user was asked about `a.json` the request for `b.json` came in; the user always allows
the workspace, `a.json` has been read, and the turn is that of `b.json`. -/
def overtaken : TrustTrace :=
  let a := ruleFile "a.json"
  let b := ruleFile "b.json"
  let alone : Gate := { states := [(a.key, .prompting)], holder := some 0 }
  let both : Gate := { alone with waiting := [1] }
  let s : GateTrace := ⟨{}, fun _ => none, []⟩
  let s := (s.note (.entered 0 a false)).move 0 a (.asking 0, alone)
  let s := (s.note (.entered 1 b false)).move 1 b (.queued, both)
  let s := (s.note (.answered 0 (some .alwaysAllow))).move 0 a
    (.loading 0 true ["a.json"] [], both)
  { trace := s.move 0 a (both.load a 0 true [] [])
    ledger := .memory ["w"] true
    files := .memory {} }

/-- The user is asked about `b.json` as well. -/
def askedTwice : TrustTrace :=
  { overtaken with
    trace := overtaken.trace.move 1 (ruleFile "b.json")
      (overtaken.trace.gate.takeTurn (ruleFile "b.json")) }

theorem overtaken_reachable : overtaken.Reachable := by
  let a := ruleFile "a.json"
  let b := ruleFile "b.json"
  let alone : Gate := { states := [(a.key, .prompting)], holder := some 0 }
  let both : Gate := { alone with waiting := [1] }
  let s₀ : GateTrace := ⟨{}, fun _ => none, []⟩
  let s₁ := (s₀.note (.entered 0 a false)).move 0 a (.asking 0, alone)
  let s₂ := (s₁.note (.entered 1 b false)).move 1 b (.queued, both)
  let s₃ := (s₂.note (.answered 0 (some .alwaysAllow))).move 0 a
    (.loading 0 true ["a.json"] [], both)
  have hfirst : Step ⟨s₀, .memory [] true, .memory {}⟩ ⟨s₁, .memory [] true, .memory {}⟩ :=
    .enter 0 a nofun
  have hsecond : Step ⟨s₁, .memory [] true, .memory {}⟩ ⟨s₂, .memory [] true, .memory {}⟩ :=
    .enter 1 b nofun
  have hanswer : Step ⟨s₂, .memory [] true, .memory {}⟩ ⟨s₃, .memory ["w"] true, .memory {}⟩ :=
    .answer (l := ⟨s₂, .memory [] true, .memory {}⟩) (r := a) rfl (some .alwaysAllow)
  obtain ⟨found, journal, hfound, hreceive⟩ :=
    both.receive_loading a (.error .unavailable) {} 0 true "a.json" [] []
  obtain rfl : found = [] := (congrArg Prod.fst hfound).symm
  have hread : Step ⟨s₃, .memory ["w"] true, .memory {}⟩ overtaken :=
    .receive (l := ⟨s₃, .memory ["w"] true, .memory {}⟩) (r := a) rfl (.error .unavailable) hreceive
  exact ⟨_, ⟨rfl, fun _ => rfl, rfl⟩,
    (((Relation.ReflTransGen.single hfirst).tail hsecond).tail hanswer).tail hread⟩

theorem overtaken_step : Step overtaken askedTwice :=
  .takeTurn (l := overtaken) (r := ruleFile "b.json") rfl rfl

/-! ### One question at a time -/

/-- However requests, turns, answers, texts and invalidations are interleaved: at most one question
is open; each is put for a request that has come in, about its locations; and of two questions the
earlier was answered before the later was put, with an invalidation between them if they are about
the same key. -/
theorem prompts_in_turn (h : l.Reachable) :
    (∀ who other r r' epoch epoch', l.trace.requests who = some (r, .asking epoch) →
      l.trace.requests other = some (r', .asking epoch') → who = other) ∧
    (∀ (later : List GateMark) (who : Nat) (locations : List String) (earlier : List GateMark),
      l.trace.log = later ++ .asked who locations :: earlier →
      ∃ r trusted since, UnderWay earlier who r trusted since ∧ r.locations.value = locations) ∧
    ∀ (later : List GateMark) (who : Nat) (locations : List String) (mid : List GateMark)
      (other : Nat) (locations' : List String) (older : List GateMark),
      l.trace.log =
        later ++ .asked who locations :: (mid ++ .asked other locations' :: older) →
      (∃ choice, .answered other choice ∈ mid) ∧
      ∀ r trusted since r' trusted' since',
        UnderWay (mid ++ .asked other locations' :: older) who r trusted since →
        UnderWay older other r' trusted' since' → r.key = r'.key → .invalidated ∈ mid := by
  have hturn := inTurn_of_reachable h
  refine ⟨?_, ?_, ?_⟩
  · intro who other r r' epoch epoch' hrequest hrequest'
    have hholder := hturn.turn who r _ hrequest nofun
    exact Option.some.inj (hholder.symm.trans (hturn.turn other r' _ hrequest' nofun))
  · intro later who locations earlier hlog
    have hasked := hturn.asked
    rw [hlog] at hasked
    obtain ⟨⟨r, trusted, since, hunder, hlocations, -⟩, -⟩ := hasked.of_mem who locations rfl
    exact ⟨r, trusted, since, hunder, hlocations⟩
  · intro later who locations mid other locations' older hlog
    have hasked := hturn.asked
    rw [hlog] at hasked
    obtain ⟨⟨r₀, trusted₀, since₀, hunder₀, -, honce⟩, hanswered⟩ :=
      hasked.of_mem who locations rfl
    refine ⟨hanswered mid other locations' older rfl, ?_⟩
    intro r trusted since r' trusted' since' hunder hunder' hkey
    obtain ⟨-, rfl, -⟩ := hunder₀.unique hunder
    by_contra hvalid
    exact honce ⟨mid, other, locations', older, r', trusted', since', rfl, hvalid, hunder',
      hkey.symm⟩

theorem prompts_in_turn_of_overtaken :
    ∃ mid : List GateMark, askedTwice.trace.log = .asked 1 ["b.json"] :: (mid ++
        [.asked 0 ["a.json"], .entered 0 (ruleFile "a.json") false]) ∧
      ∃ choice, .answered 0 choice ∈ mid := by
  have h := prompts_in_turn (overtaken_reachable.step overtaken_step)
  exact ⟨[.returned 0 [], .stored 0 (ruleFile "a.json").key [], .read 0 "a.json",
    .answered 0 (some .alwaysAllow), .entered 1 (ruleFile "b.json") false], rfl,
    (h.2.2 [] 1 ["b.json"] _ 0 ["a.json"] [.entered 0 (ruleFile "a.json") false] rfl).1⟩

/-! ### Trust and waiting -/

/-- A step puts a question to the user for a caller's request. -/
def Prompts (l l' : TrustTrace) (who : Nat) (r : RuleRequest) : Prop :=
  (∃ epoch, l'.trace.requests who = some (r, .asking epoch)) ∧
    ∀ r' epoch, l.trace.requests who ≠ some (r', .asking epoch)

/-- The workspace of a request about which the user is asked was not trusted when it came in. -/
theorem Reachable.untrusted (h : l.Reachable) {who : Nat} {r : RuleRequest} {epoch : Nat}
    (hrequest : l.trace.requests who = some (r, .asking epoch)) :
    ∃ since, UnderWay l.trace.log who r false since := by
  obtain ⟨finds, hreach⟩ := LoadTrace.exists_reachable h.trace
  obtain ⟨recent, rest, trusted, old, hlog, hrecent, hunder, rfl, -⟩ :=
    (LoadTrace.tracked_of_reachable hreach).requests who r _ (by simp) hrequest
  exact ⟨recent ++ old, hlog ▸ hunder.append recent hrecent⟩

/-- When a question is put for a request, its workspace was not trusted when the request came in;
and if it is trusted now, the request has been waiting for its turn since. -/
theorem prompted_untrusted {who : Nat} {r : RuleRequest} (h : l.Reachable) (hstep : Step l l')
    (hprompts : Prompts l l' who r) :
    (∃ since, UnderWay l'.trace.log who r false since) ∧
      (l.trusts r = true → l.trace.requests who = some (r, .queued)) := by
  obtain ⟨⟨epoch, hasking⟩, hbefore⟩ := hprompts
  obtain ⟨since, hunder⟩ := (h.step hstep).untrusted hasking
  refine ⟨⟨since, hunder⟩, fun htrusted => ?_⟩
  -- only the caller that moves comes to ask
  have hmoves : ∀ {who' : Nat} {r' : RuleRequest} {p : Passage},
      Function.update l.trace.requests who' (some (r', p)) who = some (r, .asking epoch) →
        who' = who ∧ r' = r ∧ p = .asking epoch := by
    intro who' r' p hrequest
    by_cases heq : who = who'
    · subst heq
      exact ⟨rfl, by simpa using hrequest⟩
    · rw [Function.update_of_ne heq] at hrequest
      exact absurd hrequest (hbefore r epoch)
  cases hstep with
  | enter who' r' hfree =>
      obtain ⟨rfl, rfl, -⟩ := hmoves hasking
      -- what was looked up when the request came in is what is trusted now
      have hentered : UnderWay (l.trace.note (.entered who' r' (l.trusts r'))).log who' r'
          (l.trusts r') [] := ⟨⟨_, rfl⟩, nofun⟩
      have hsame := hunder.unique (hentered.move _ _)
      exact absurd (hsame.2.2.trans htrusted) nofun
  | @takeTurn who' r' hrequest _ =>
      obtain ⟨rfl, rfl, -⟩ := hmoves hasking
      exact hrequest
  | @answer who' r' epoch' hrequest choice =>
      obtain ⟨rfl, -, -⟩ := hmoves hasking
      exact absurd hrequest (hbefore r' epoch')
  | @receive who' r' epoch' holds left rules hrequest text journal journal' p g hreceive =>
      obtain ⟨-, -, rfl⟩ := hmoves hasking
      exact absurd (congrArg Prod.fst hreceive) (Gate.receive_ne_asking text journal)
  | invalidate => exact absurd hasking (hbefore r epoch)
  | drift hsame => exact absurd (hsame ▸ hasking) (hbefore r epoch)

theorem overtaken_prompts : Prompts overtaken askedTwice 1 (ruleFile "b.json") := by
  refine ⟨⟨0, rfl⟩, fun r epoch hrequest => ?_⟩
  have hqueued : overtaken.trace.requests 1 = some (ruleFile "b.json", .queued) := rfl
  cases (Prod.mk.inj (Option.some.inj (hqueued.symm.trans hrequest))).2

theorem prompted_untrusted_of_overtaken :
    overtaken.trusts (ruleFile "b.json") = true ∧
      (∃ since, UnderWay askedTwice.trace.log 1 (ruleFile "b.json") false since) ∧
      overtaken.trace.requests 1 = some (ruleFile "b.json", .queued) := by
  have h := prompted_untrusted overtaken_reachable overtaken_step overtaken_prompts
  exact ⟨rfl, h.1, h.2 rfl⟩

/-- The user is asked about a workspace that is trusted already. -/
theorem trusted_workspace_prompted :
    ¬∀ (l l' : TrustTrace) (who : Nat) (r : RuleRequest), l.Reachable → Step l l' →
      Prompts l l' who r → l.trusts r = false := by
  intro h
  have huntrusted := h _ _ _ _ overtaken_reachable overtaken_step overtaken_prompts
  cases huntrusted

end TrustTrace

end LintDesk
