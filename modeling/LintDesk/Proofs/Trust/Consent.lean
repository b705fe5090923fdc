import LintDesk.Proofs.Trust.GateTrace

/-! # No untrusted rules without consent

Locations that shared settings name are read only for a request whose workspace is trusted or whose
user has agreed, and rules of such locations are handed out only by a request that loaded them so,
or from what such a request loaded and stored since the gate was last invalidated.
-/

namespace LintDesk

namespace GateTrace

/-! ### What the log says about a request -/

/-- The request of a caller that came in last, whether its workspace was trusted then, and what
happened since. -/
def UnderWay (log : List GateMark) (who : Nat) (r : RuleRequest) (trusted : Bool)
    (since : List GateMark) : Prop :=
  (∃ before, log = since ++ .entered who r trusted :: before) ∧
    ∀ m ∈ since, m.enters who = false

/-- The user was shown just these locations and then agreed. -/
def Allowed (who : Nat) (locations : List String) (since : List GateMark) : Prop :=
  ∃ later choice earlier, since = later ++ .answered who (some choice) :: earlier ∧
    (choice = .allowOnce ∨ choice = .alwaysAllow) ∧ .asked who locations ∈ earlier

/-- A request may load: its workspace is trusted, or the user agreed. -/
def Granted (who : Nat) (r : RuleRequest) (trusted : Bool) (since : List GateMark) : Prop :=
  trusted = true ∨ Allowed who r.locations.value since

/-- A request may load, and has read all its locations. -/
def Loaded (who : Nat) (r : RuleRequest) (trusted : Bool) (since : List GateMark) : Prop :=
  Granted who r trusted since ∧ ∀ location ∈ r.locations.value, .read who location ∈ since

def HasLoaded (log : List GateMark) (who : Nat) (r : RuleRequest) : Prop :=
  ∃ trusted since, UnderWay log who r trusted since ∧ Loaded who r trusted since

/-- The request of a caller has done so since the last invalidation. -/
def HasLoadedNow (log : List GateMark) (who : Nat) (r : RuleRequest) : Prop :=
  ∃ trusted recent old, UnderWay log who r trusted (recent ++ old) ∧ .invalidated ∉ recent ∧
    Loaded who r trusted recent

/-- Since the last invalidation a request for a key loaded its rules and stored them. -/
def HasStored (log : List GateMark) (key : RuleKey) (rules : List CustomRule) : Prop :=
  ∃ later who r earlier, log = later ++ .stored who key rules :: earlier ∧
    .invalidated ∉ later ∧ r.key = key ∧ HasLoadedNow earlier who r

/-- A mark is justified by what came before it. -/
def Justified (earlier : List GateMark) : GateMark → Prop
  | .read who location => ∃ r trusted since, UnderWay earlier who r trusted since ∧
      location ∈ r.locations.value ∧ (r.key.requiresTrust = true → Granted who r trusted since)
  | .returned who rules => ∃ r trusted since, UnderWay earlier who r trusted since ∧
      (r.key.requiresTrust = true → rules ≠ [] →
        HasLoaded earlier who r ∨ HasStored earlier r.key rules)
  | _ => True

def Sound : List GateMark → Prop
  | [] => True
  | m :: earlier => Justified earlier m ∧ Sound earlier

variable {s : GateTrace} {log : List GateMark} {who : Nat} {r : RuleRequest} {trusted : Bool}
  {since : List GateMark}

theorem Sound.justified {later earlier : List GateMark} {m : GateMark}
    (h : Sound (later ++ m :: earlier)) : Justified earlier m := by
  induction later with
  | nil => exact h.1
  | cons _ later ih => exact ih h.2

theorem UnderWay.append (h : UnderWay log who r trusted since) (marks : List GateMark)
    (hmarks : ∀ m ∈ marks, m.enters who = false) :
    UnderWay (marks ++ log) who r trusted (marks ++ since) := by
  obtain ⟨⟨before, rfl⟩, hsince⟩ := h
  exact ⟨⟨before, by simp⟩, List.forall_mem_append.mpr ⟨hmarks, hsince⟩⟩

theorem Granted.append (h : Granted who r trusted since) (marks : List GateMark) :
    Granted who r trusted (marks ++ since) := by
  rcases h with htrusted | ⟨later, choice, earlier, rfl, hchoice, hasked⟩
  · exact .inl htrusted
  · exact .inr ⟨marks ++ later, choice, earlier, by simp, hchoice, hasked⟩

theorem Granted.append_right (h : Granted who r trusted since) (marks : List GateMark) :
    Granted who r trusted (since ++ marks) := by
  rcases h with htrusted | ⟨later, choice, earlier, rfl, hchoice, hasked⟩
  · exact .inl htrusted
  · exact .inr ⟨later, choice, earlier ++ marks, by simp, hchoice, List.mem_append_left _ hasked⟩

theorem HasStored.append {key : RuleKey} {rules : List CustomRule} (h : HasStored log key rules)
    (marks : List GateMark) (hmarks : .invalidated ∉ marks) :
    HasStored (marks ++ log) key rules := by
  obtain ⟨later, who, r, earlier, rfl, hlater, hkey, hloaded⟩ := h
  exact ⟨marks ++ later, who, r, earlier, by simp, by simp [hmarks, hlater], hkey, hloaded⟩

/-! ### The invariant -/

/-- Marks since a moment in an epoch: if the epoch is not over, the gate was not invalidated. -/
def SinceEpoch (now epoch : Nat) (marks : List GateMark) : Prop :=
  epoch ≤ now ∧ (epoch = now → .invalidated ∉ marks)

theorem SinceEpoch.append {now now' epoch : Nat} {marks : List GateMark}
    (h : SinceEpoch now epoch marks) (more : List GateMark) (hnow : now ≤ now')
    (hmore : .invalidated ∈ more → now < now') : SinceEpoch now' epoch (more ++ marks) := by
  refine ⟨Nat.le_trans h.1 hnow, fun hepoch hmem => ?_⟩
  have hle := h.1
  rcases List.mem_append.mp hmem with hmem | hmem
  · have hlt := hmore hmem
    omega
  · exact h.2 (by omega) hmem

/-- What the log says about a request at a point of its passage; `now` is the epoch of the gate.
What the request has done since its own epoch was fixed is `recent`. -/
def AtPassage (now : Nat) (log : List GateMark) (who : Nat) (r : RuleRequest) (p : Passage) :
    Prop :=
  ∃ trusted recent old, UnderWay log who r trusted (recent ++ old) ∧
    match p with
    | .asking epoch => SinceEpoch now epoch recent ∧ .asked who r.locations.value ∈ recent
    | .loading epoch _ left _ => SinceEpoch now epoch recent ∧
        (r.key.requiresTrust = true → Granted who r trusted recent) ∧
        ∃ before location rest, left = location :: rest ∧
          r.locations.value = before ++ left ∧
          ∀ l ∈ before ++ [location], .read who l ∈ recent
    | _ => True

/-- All marks are justified, all requests but possibly one caller's are where the log says, and
rules that need trust were stored by requests that could load them. -/
structure InOrderBut (absent : Option Nat) (s : GateTrace) : Prop where
  sound : Sound s.log
  requests : ∀ who r p, some who ≠ absent → s.requests who = some (r, p) →
    AtPassage s.gate.epoch s.log who r p
  states : ∀ key rules, key.requiresTrust = true → rules ≠ [] →
    s.gate.state key = .loaded rules → HasStored s.log key rules

theorem AtPassage.append {now now' : Nat} {p : Passage} (h : AtPassage now log who r p)
    (marks : List GateMark) (hmarks : ∀ m ∈ marks, m.enters who = false) (hnow : now ≤ now')
    (hvalid : .invalidated ∈ marks → now < now') : AtPassage now' (marks ++ log) who r p := by
  obtain ⟨trusted, recent, old, hunder, hp⟩ := h
  refine ⟨trusted, marks ++ recent, old, by simpa using hunder.append marks hmarks, ?_⟩
  cases p with
  | queued => trivial
  | asking epoch => exact ⟨hp.1.append marks hnow hvalid, List.mem_append_right _ hp.2⟩
  | loading epoch holds left rules =>
      obtain ⟨hepoch, hgranted, before, location, rest, hleft, hall, hread⟩ := hp
      exact ⟨hepoch.append marks hnow hvalid, fun htrust => (hgranted htrust).append marks, before,
        location, rest, hleft, hall, fun l hl => List.mem_append_right _ (hread l hl)⟩
  | done rules => trivial

/-- Noting that a request came in or was answered disturbs no other caller. -/
theorem InOrderBut.note (h : InOrderBut none s) {m : GateMark} (hm : Justified s.log m)
    (hvalid : m ≠ .invalidated) (hother : ∀ other, other ≠ who → m.enters other = false) :
    InOrderBut (some who) (s.note m) where
  sound := ⟨hm, h.sound⟩
  requests := by
    intro other r p hne hrequest
    have hmark : ∀ m' ∈ [m], m'.enters other = false := by
      simpa using hother other fun heq => hne (by rw [heq])
    exact (h.requests other r p (by simp) hrequest).append [m] hmark (Nat.le_refl _)
      fun hm => absurd (List.mem_singleton.mp hm).symm hvalid
  states := by
    intro key rules htrust hrules hstate
    have hmark : .invalidated ∉ [m] := by simpa using hvalid.symm
    exact (h.states key rules htrust hrules hstate).append [m] hmark

/-- The marks of a move tell neither of a request that comes in nor of an invalidation. -/
theorem marks_inner {p : Passage} {m : GateMark} (h : m ∈ p.marks who r) :
    (∀ other, m.enters other = false) ∧ m ≠ .invalidated := by
  cases p with
  | queued => cases h
  | asking epoch =>
      obtain rfl := List.mem_singleton.mp h
      exact ⟨fun _ => rfl, nofun⟩
  | loading epoch holds left rules =>
      obtain ⟨location, -, rfl⟩ := List.mem_map.mp h
      exact ⟨fun _ => rfl, nofun⟩
  | done rules =>
      obtain rfl := List.mem_singleton.mp h
      exact ⟨fun _ => rfl, nofun⟩

theorem newRules_inner {key : RuleKey} {g g' : Gate} {m : GateMark}
    (h : m ∈ g.newRules who key g') : (∀ other, m.enters other = false) ∧ m ≠ .invalidated := by
  unfold Gate.newRules at h
  split at h
  · split at h
    · cases h
    · obtain rfl := List.mem_singleton.mp h
      exact ⟨fun _ => rfl, nofun⟩
  · cases h

theorem Sound.newRules (h : Sound log) (who : Nat) (key : RuleKey) (g g' : Gate) :
    Sound (g.newRules who key g' ++ log) := by
  unfold Gate.newRules
  split
  · split
    · exact h
    · exact ⟨trivial, h⟩
  · exact h

theorem Sound.marks (h : Sound log) {p : Passage} (hmarks : ∀ m ∈ p.marks who r, Justified log m) :
    Sound (p.marks who r ++ log) := by
  cases p with
  | queued => exact h
  | asking epoch => exact ⟨trivial, h⟩
  | loading epoch holds left rules =>
      cases left with
      | nil => exact h
      | cons location rest => exact ⟨hmarks _ List.mem_cons_self, h⟩
  | done rules => exact ⟨hmarks _ List.mem_cons_self, h⟩

/-- A move keeps order if its mark is justified, the request is where its passage says, and rules
that it stores have been loaded in the current epoch. -/
theorem InOrderBut.move (h : InOrderBut (some who) s) {p : Passage} {g : Gate}
    (hepoch : g.epoch = s.gate.epoch) (hkeep : ∀ k, k ≠ r.key → g.state k = s.gate.state k)
    (hstore : r.key.requiresTrust = true → ∀ rules, rules ≠ [] → g.state r.key = .loaded rules →
      s.gate.state r.key = .loaded rules ∨ HasLoadedNow s.log who r)
    (hmarks : ∀ m ∈ p.marks who r, Justified (s.gate.newRules who r.key g ++ s.log) m)
    (hpassage : AtPassage s.gate.epoch
      (p.marks who r ++ (s.gate.newRules who r.key g ++ s.log)) who r p) :
    InOrderBut none (s.move who r (p, g)) where
  sound := (h.sound.newRules who r.key s.gate g).marks hmarks
  requests := by
    intro other r' p' _ hrequest
    change AtPassage g.epoch _ other r' p'
    rw [hepoch]
    by_cases hother : other = who
    · subst hother
      obtain ⟨rfl, rfl⟩ : r = r' ∧ p = p' := by simpa [GateTrace.move] using hrequest
      exact hpassage
    · have hsame : s.requests other = some (r', p') := by
        simpa [GateTrace.move, hother] using hrequest
      have hold := h.requests other r' p' (by simpa using hother) hsame
      exact (hold.append _ (fun m hm => (newRules_inner hm).1 other) (Nat.le_refl _)
        fun hm => absurd rfl (newRules_inner hm).2).append _
          (fun m hm => (marks_inner hm).1 other) (Nat.le_refl _)
          fun hm => absurd rfl (marks_inner hm).2
  states := by
    intro key rules htrust hrules hstate
    have hvalid : .invalidated ∉ p.marks who r := fun hm => (marks_inner hm).2 rfl
    -- what was known before is still known from the same mark
    have hold : s.gate.state key = .loaded rules →
        HasStored (s.move who r (p, g)).log key rules := by
      intro hbefore
      exact ((h.states key rules htrust hrules hbefore).append _
        fun hm => (newRules_inner hm).2 rfl).append _ hvalid
    by_cases hkey : key = r.key
    · subst hkey
      by_cases hbefore : s.gate.state r.key = .loaded rules
      · exact hold hbefore
      · have hnew : s.gate.newRules who r.key g = [.stored who r.key rules] := by
          have hafter : g.state r.key = .loaded rules := hstate
          simp [Gate.newRules, hafter, hbefore]
        have hloaded := (hstore htrust rules hrules hstate).resolve_left hbefore
        refine ⟨p.marks who r, who, r, s.log, ?_, ?_, rfl, hloaded⟩
        · simp [GateTrace.move, hnew]
        · exact hvalid
    · exact hold ((hkeep key hkey).symm.trans hstate)

/-! ### The steps of a request -/

theorem UnderWay.newRules (h : UnderWay s.log who r trusted since) (g : Gate) :
    UnderWay (s.gate.newRules who r.key g ++ s.log) who r trusted
      (s.gate.newRules who r.key g ++ since) :=
  h.append _ fun _ hm => (newRules_inner hm).1 who

/-- Whatever a move notes, the request of its caller stays the same. -/
theorem UnderWay.move (h : UnderWay s.log who r trusted since) (p : Passage) (g : Gate) :
    UnderWay (p.marks who r ++ (s.gate.newRules who r.key g ++ s.log)) who r trusted
      (p.marks who r ++ (s.gate.newRules who r.key g ++ since)) :=
  (h.newRules g).append _ fun _ hm => (marks_inner hm).1 who

theorem InOrderBut.known (h : InOrderBut (some who) s) (hunder : UnderWay s.log who r trusted since)
    {rules : List CustomRule} {g : Gate} (hrules : s.gate.settled? r.key = some rules)
    (hsame : g.Agrees s.gate) : InOrderBut none (s.move who r (.done rules, g)) := by
  refine h.move hsame.1 (fun k _ => hsame.2 k)
    (fun _ known _ hknown => .inl (by rw [← hsame.2, hknown])) ?_
    ⟨trusted, [], _, hunder.move _ g, trivial⟩
  intro m hm
  obtain rfl := List.mem_singleton.mp hm
  refine ⟨r, trusted, _, hunder.newRules g, ?_⟩
  intro htrust hne
  have hstate := (Gate.state_of_settled? hrules).resolve_right hne
  exact .inr ((h.states r.key rules htrust hne hstate).append _ fun hm => (newRules_inner hm).2 rfl)

theorem InOrderBut.wait (h : InOrderBut (some who) s) (hunder : UnderWay s.log who r trusted since)
    {g : Gate} (hsame : g.Agrees s.gate) : InOrderBut none (s.move who r (.queued, g)) :=
  h.move hsame.1 (fun k _ => hsame.2 k)
    (fun _ known _ hknown => .inl (by rw [← hsame.2, hknown])) nofun
    ⟨trusted, [], _, hunder.move .queued g, trivial⟩

/-- A request asks the user, which fixes its epoch. -/
theorem InOrderBut.ask (h : InOrderBut (some who) s) (hunder : UnderWay s.log who r trusted since)
    {g : Gate} (hepoch : g.epoch = s.gate.epoch)
    (hprompting : ∀ k, g.state k = if k = r.key then .prompting else s.gate.state k) :
    InOrderBut none (s.move who r (.asking s.gate.epoch, g)) := by
  refine h.move hepoch (fun k hk => by rw [hprompting, if_neg hk]) ?_ ?_
    ⟨trusted, [.asked who r.locations.value], _, hunder.move (.asking s.gate.epoch) g,
      ⟨Nat.le_refl _, fun _ => by simp⟩, List.mem_cons_self⟩
  · intro _ rules _ hrules
    rw [hprompting, if_pos rfl] at hrules
    cases hrules
  · intro m hm
    obtain rfl := List.mem_singleton.mp hm
    trivial

/-- A request ends without rules, because the user refused. -/
theorem InOrderBut.refuse (h : InOrderBut (some who) s)
    (hunder : UnderWay s.log who r trusted since) {g : Gate} (hepoch : g.epoch = s.gate.epoch)
    (hstate : ∀ k, g.state k = s.gate.state k ∨ k = r.key ∧ g.state k = .blocked) :
    InOrderBut none (s.move who r (.done [], g)) := by
  refine h.move hepoch (fun k hk => (hstate k).resolve_right fun hown => hk hown.1) ?_ ?_
    ⟨trusted, [], _, hunder.move _ g, trivial⟩
  · intro _ rules _ hrules
    rcases hstate r.key with hsame | ⟨-, hblocked⟩
    · exact .inl (hsame ▸ hrules)
    · rw [hblocked] at hrules
      cases hrules
  · intro m hm
    obtain rfl := List.mem_singleton.mp hm
    exact ⟨r, trusted, _, hunder.newRules g, fun _ hne => absurd rfl hne⟩

/-- A request has read all its locations since its epoch was fixed, and ends. -/
theorem InOrderBut.finish (h : InOrderBut (some who) s) {recent old : List GateMark}
    (hunder : UnderWay s.log who r trusted (recent ++ old)) {epoch : Nat}
    (hsince : SinceEpoch s.gate.epoch epoch recent) {rules : List CustomRule}
    (hloaded : r.key.requiresTrust = true → rules ≠ [] → Loaded who r trusted recent) {g : Gate}
    (hepoch : g.epoch = s.gate.epoch)
    (hstate : ∀ k, g.state k = s.gate.state k ∨
      k = r.key ∧ g.state k = .loaded rules ∧ epoch = s.gate.epoch) :
    InOrderBut none (s.move who r (.done rules, g)) := by
  refine h.move hepoch (fun k hk => (hstate k).resolve_right fun hown => hk hown.1) ?_ ?_
    ⟨trusted, [], _, hunder.move _ g, trivial⟩
  · intro htrust known hne hknown
    rcases hstate r.key with hsame | ⟨-, hstored, hnow⟩
    · exact .inl (hsame ▸ hknown)
    · -- the rules are stored, so the request's epoch is not over
      obtain rfl : rules = known := RuleStatus.loaded.inj (hstored.symm.trans hknown)
      exact .inr ⟨trusted, recent, old, hunder, hsince.2 hnow, hloaded htrust hne⟩
  · intro m hm
    obtain rfl := List.mem_singleton.mp hm
    refine ⟨r, trusted, _, hunder.newRules g, fun htrust hne => .inl ?_⟩
    obtain ⟨hmay, hall⟩ := hloaded htrust hne
    refine ⟨trusted, _, hunder.newRules g, ?_, fun l hl => by simp [hall l hl]⟩
    exact (hmay.append_right old).append _

/-- A request reads the next of its locations. -/
theorem InOrderBut.read (h : InOrderBut (some who) s) {recent old : List GateMark}
    (hunder : UnderWay s.log who r trusted (recent ++ old)) {epoch : Nat}
    (hsince : SinceEpoch s.gate.epoch epoch recent) (before : List String) {location : String}
    {rest : List String} {rules : List CustomRule}
    (hall : r.locations.value = before ++ location :: rest)
    (hread : ∀ l ∈ before, .read who l ∈ recent)
    (hgranted : r.key.requiresTrust = true → Granted who r trusted recent) (holds : Bool) :
    InOrderBut none (s.move who r (.loading epoch holds (location :: rest) rules, s.gate)) := by
  refine h.move rfl (fun _ _ => rfl) (fun _ known _ hknown => .inl hknown) ?_
    ⟨trusted, .read who location :: (s.gate.newRules who r.key s.gate ++ recent), old, ?_, ?_, ?_,
      before, location, rest, rfl, hall, ?_⟩
  · intro m hm
    obtain rfl := List.mem_singleton.mp hm
    refine ⟨r, trusted, _, hunder.newRules s.gate, by simp [hall], fun htrust => ?_⟩
    exact ((hgranted htrust).append_right old).append _
  · simpa [Passage.marks] using
      hunder.move (.loading epoch holds (location :: rest) rules) s.gate
  · refine (hsince.append _ (Nat.le_refl _) ?_).append [_] (Nat.le_refl _) ?_
    · exact fun hm => absurd rfl (newRules_inner hm).2
    · exact fun hm => nomatch List.mem_singleton.mp hm
  · exact fun htrust => ((hgranted htrust).append _).append [_]
  · intro l hl
    rcases List.mem_append.mp hl with hl | hl
    · exact List.mem_cons_of_mem _ (List.mem_append_right _ (hread l hl))
    · rw [List.mem_singleton.mp hl]
      exact List.mem_cons_self

/-- A request goes on loading; it has read what comes before the locations that are left, all that
since its epoch was fixed. -/
theorem InOrderBut.load (h : InOrderBut (some who) s) {recent old : List GateMark}
    (hunder : UnderWay s.log who r trusted (recent ++ old)) {epoch : Nat}
    (hsince : SinceEpoch s.gate.epoch epoch recent) (before : List String) {left : List String}
    {rules : List CustomRule} (hall : r.locations.value = before ++ left)
    (hread : ∀ l ∈ before, .read who l ∈ recent)
    (hgranted : r.key.requiresTrust = true → left ≠ [] ∨ rules ≠ [] →
      Granted who r trusted recent) (holds : Bool) :
    InOrderBut none (s.move who r (s.gate.load r epoch holds left rules)) := by
  rcases s.gate.load_cases r epoch holds left rules with ⟨rfl, hdone, hepoch, hstate⟩ |
    ⟨location, rest, rfl, hload⟩
  · rw [List.append_nil] at hall
    rw [← Prod.eta (s.gate.load r epoch holds [] rules), hdone]
    exact h.finish hunder hsince (fun htrust hne =>
      ⟨hgranted htrust (.inr hne), fun l hl => hread l (hall ▸ hl)⟩) hepoch hstate
  · rw [hload]
    exact h.read hunder hsince before hall hread
      (fun htrust => hgranted htrust (.inl (List.cons_ne_nil _ _))) holds

theorem InOrderBut.turn (h : InOrderBut (some who) s) (hunder : UnderWay s.log who r trusted since)
    {g : Gate} (hsame : g.Agrees s.gate) : InOrderBut none (s.move who r (g.takeTurn r)) :=
  move_takeTurn hsame (fun _ _ => h.known hunder) fun _ => h.ask hunder

theorem InOrderBut.forget (h : InOrderBut none s) (who : Nat) : InOrderBut (some who) s where
  sound := h.sound
  requests := fun other r p _ => h.requests other r p (by simp)
  states := h.states

theorem InOrderBut.enter (h : InOrderBut none s) (who : Nat) (isTrusted : String → Bool)
    (r : RuleRequest) :
    InOrderBut none ((s.note (.entered who r (r.workspace.any isTrusted))).move who r
      (s.gate.enter who isTrusted r)) := by
  have hnote : InOrderBut (some who) (s.note (.entered who r (r.workspace.any isTrusted))) := by
    refine h.note trivial nofun fun other hne => ?_
    simpa [GateMark.enters] using hne.symm
  have hunder : UnderWay (s.note (.entered who r (r.workspace.any isTrusted))).log who r
      (r.workspace.any isTrusted) ([] ++ []) := ⟨⟨s.log, rfl⟩, nofun⟩
  rcases s.gate.enter_cases who isTrusted r with ⟨rules, hrules, henter⟩ |
    ⟨htrusted, henter⟩ | ⟨hqueued, hstate⟩ | ⟨g, hsame, henter⟩
  · rw [henter]
    exact hnote.known hunder hrules ⟨rfl, fun _ => rfl⟩
  · rw [henter]
    refine hnote.load hunder ⟨Nat.le_refl _, nofun⟩ [] rfl nofun
      (fun htrust hne => ?_) false
    exact .inl (htrusted htrust (hne.resolve_right (by simp)))
  · rw [← Prod.eta (s.gate.enter who isTrusted r), hqueued]
    exact hnote.wait hunder hstate
  · rw [henter]
    exact hnote.turn hunder hsame

theorem InOrderBut.answer (h : InOrderBut none s) {who : Nat} {r : RuleRequest} {epoch : Nat}
    (hrequest : s.requests who = some (r, .asking epoch)) (choice : Option TrustChoice) :
    InOrderBut none
      ((s.note (.answered who choice)).move who r (s.gate.answer r epoch choice)) := by
  obtain ⟨trusted, recent, old, hunder, hsince, hasked⟩ := h.requests who r _ (by simp) hrequest
  have hnote : InOrderBut (some who) (s.note (.answered who choice)) :=
    h.note trivial nofun fun _ _ => rfl
  have hunder' : UnderWay (s.note (.answered who choice)).log who r trusted
      (.answered who choice :: recent ++ old) :=
    hunder.append [.answered who choice] (by simp [GateMark.enters])
  rcases s.gate.answer_cases r epoch choice with ⟨hdone, hepoch, hstate⟩ | ⟨hchoice, hload⟩
  · rw [← Prod.eta (s.gate.answer r epoch choice), hdone]
    exact hnote.refuse hunder' hepoch hstate
  · rw [hload]
    refine hnote.load hunder' (hsince.append [_] (Nat.le_refl _) (by simp)) [] rfl nofun
      (fun _ _ => .inr ?_) true
    rcases hchoice with rfl | rfl
    · exact ⟨[], .allowOnce, recent, rfl, .inl rfl, hasked⟩
    · exact ⟨[], .alwaysAllow, recent, rfl, .inr rfl, hasked⟩

theorem InOrderBut.receive (h : InOrderBut none s) {who : Nat} {r : RuleRequest} {epoch : Nat}
    {holds : Bool} {left : List String} {rules : List CustomRule}
    (hrequest : s.requests who = some (r, .loading epoch holds left rules))
    {text : Except Fault String} {journal journal' : Journal} {p : Passage} {g : Gate}
    (hreceive : s.gate.receive r text journal (.loading epoch holds left rules) =
      (p, g, journal')) : InOrderBut none (s.move who r (p, g)) := by
  obtain ⟨trusted, recent, old, hunder, hsince, hgranted, before, location, rest, rfl, hall,
    hread⟩ := h.requests who r _ (by simp) hrequest
  -- the first of the locations that are left has been read
  obtain ⟨found, journal'', -, hload⟩ := s.gate.receive_loading r text journal epoch holds
    location rest rules
  obtain ⟨rfl, rfl, -⟩ : _ = p ∧ _ = g ∧ _ := by
    simpa only [Prod.mk.injEq] using hload.symm.trans hreceive
  exact (h.forget who).load hunder hsince (before ++ [location]) (by simpa using hall) hread
    (fun htrust _ => hgranted htrust) holds

theorem InOrderBut.invalidate (h : InOrderBut none s) :
    InOrderBut none ({ s with gate := s.gate.invalidate }.note .invalidated) := by
  refine ⟨⟨trivial, h.sound⟩, ?_, ?_⟩
  · intro who r p _ hrequest
    exact (h.requests who r p (by simp) hrequest).append [.invalidated]
      (by simp [GateMark.enters])
      (Nat.le_succ _) fun _ => Nat.lt_succ_self _
  · intro key rules _ _ hstate
    cases hstate

theorem InOrderBut.step {s s' : GateTrace} (h : InOrderBut none s) (hstep : Step s s') :
    InOrderBut none s' := by
  cases hstep with
  | enter who isTrusted r hfree => exact h.enter who isTrusted r
  | @takeTurn who r hrequest =>
      obtain ⟨trusted, recent, old, hunder, -⟩ := h.requests who r _ (by simp) hrequest
      exact (h.forget who).turn hunder ⟨rfl, fun _ => rfl⟩
  | answer hrequest choice => exact h.answer hrequest choice
  | receive hrequest text hreceive => exact h.receive hrequest hreceive
  | invalidate => exact h.invalidate

theorem inOrder_of_reachable (h : Reachable s) : InOrderBut none s := by
  obtain ⟨s₀, ⟨hstates, hrequests, hlog⟩, hrun⟩ := h
  induction hrun with
  | refl =>
      refine ⟨by rw [hlog]; trivial, ?_, ?_⟩
      · intro who r p _ hrequest
        rw [hrequests] at hrequest
        cases hrequest
      · intro key rules _ _ hstate
        simp [Gate.state, hstates] at hstate
  | tail _ hstep ih => exact ih.step hstep

/-- Whatever the order in which requests, answers and invalidations come: a location that the
workspace or a folder names is read only if, since the request came in, its workspace was found
trusted or the user agreed to just its locations; and a request for such locations is given rules
only if it loaded them so, or if since the last invalidation they were loaded so and stored for the
same directory and locations. -/
theorem rules_need_consent (h : Reachable s) :
    (∀ later who location earlier, s.log = later ++ .read who location :: earlier →
      ∃ r trusted since, UnderWay earlier who r trusted since ∧ location ∈ r.locations.value ∧
        (r.locations.scope = .workspace ∨ r.locations.scope = .folder →
          Granted who r trusted since)) ∧
    ∀ later who rules earlier, s.log = later ++ .returned who rules :: earlier →
      ∃ r trusted since, UnderWay earlier who r trusted since ∧
        (r.key.requiresTrust = true → rules ≠ [] →
          HasLoaded earlier who r ∨ HasStored earlier r.key rules) := by
  have hsound := (inOrder_of_reachable h).sound
  constructor
  · intro later who location earlier hlog
    rw [hlog] at hsound
    obtain ⟨r, trusted, since, hunder, hmem, hgranted⟩ := hsound.justified
    refine ⟨r, trusted, since, hunder, hmem, fun hscope => hgranted ?_⟩
    rcases hscope with hscope | hscope <;> simp [RuleRequest.key, hscope, Scope.requiresTrust]
  · intro later who rules earlier hlog
    rw [hlog] at hsound
    exact hsound.justified

/-- A request of a workspace that is not trusted: the user is asked and allows it once. -/
theorem rules_need_consent_of_allowed :
    ∃ (s : GateTrace) (r : RuleRequest) (rule : CustomRule) (earlier : List GateMark),
      s.Reachable ∧ r.locations = ⟨["r.json"], .workspace⟩ ∧
      s.log = [.returned 0 [rule], .stored 0 r.key [rule], .read 0 "r.json"] ++ earlier ∧
      earlier = [.answered 0 (some .allowOnce), .asked 0 ["r.json"], .entered 0 r false] ∧
      ∃ r' trusted since, UnderWay earlier 0 r' trusted since ∧ "r.json" ∈ r'.locations.value ∧
        (r'.locations.scope = .workspace ∨ r'.locations.scope = .folder →
          Granted 0 r' trusted since) := by
  let r : RuleRequest := ⟨⟨["r.json"], .workspace⟩, some "w", none⟩
  let rule : CustomRule := ⟨["A"], "d", none, [], "x"⟩
  let g : Gate := { states := [(r.key, .prompting)], holder := some 0 }
  let s₀ : GateTrace := ⟨{}, fun _ => none, []⟩
  let s₁ := (s₀.note (.entered 0 r false)).move 0 r (.asking 0, g)
  let s₂ := (s₁.note (.answered 0 (some .allowOnce))).move 0 r (.loading 0 true ["r.json"] [], g)
  have henter : s₀.Step s₁ := .enter 0 (fun _ => false) r nofun
  have hanswer : s₁.Step s₂ := .answer (s := s₁) (r := r) rfl (some .allowOnce)
  obtain ⟨found, journal, hfound, hreceive⟩ := g.receive_loading r
    (.ok "\x7b\"names\":[\"A\"],\"description\":\"d\",\"tags\":[],\"function\":\"x\"\x7d")
    {} 0 true "r.json" [] []
  obtain rfl : found = [rule] := by
    refine (congrArg Prod.fst hfound).symm.trans ?_
    decide +kernel
  let s₃ := s₂.move 0 r (g.load r 0 true [] [rule])
  have hload : s₂.Step s₃ := .receive (s := s₂) (r := r) rfl _ hreceive
  have hreach : s₃.Reachable :=
    ⟨s₀, ⟨rfl, fun _ => rfl, rfl⟩, ((Relation.ReflTransGen.single henter).tail hanswer).tail hload⟩
  have hlog : s₃.log = [.returned 0 [rule], .stored 0 r.key [rule], .read 0 "r.json",
      .answered 0 (some .allowOnce), .asked 0 ["r.json"], .entered 0 r false] := by
    rfl
  refine ⟨s₃, r, rule, _, hreach, rfl, hlog, rfl, ?_⟩
  exact (rules_need_consent hreach).1 [.returned 0 [rule], .stored 0 r.key [rule]] 0 "r.json" _ hlog

end GateTrace

end LintDesk
