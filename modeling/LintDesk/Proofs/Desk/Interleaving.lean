import LintDesk.Proofs.Desk.ActSpec
import LintDesk.Server.Serve
import Mathlib.Logic.Relation

/-! # Interleavings

In a run any task may do its next action at any moment, the host may step in between two actions,
and all that passes do not depend on may change by itself. The order in which a desk takes its tasks
is one of these runs (`perform_run`).
-/

namespace LintDesk

/-- Work that a host asks for. -/
inductive Call where
  | lint (document : Document)
  | save (document : Document)
  | close (uri : Url)
  | refresh
  | startOver
  | setEnabled (enabled : Bool)
  | toggle
  | violations (document : Document)
  | fix (document : Document) (choice : FixChoice)
  | rules (request : RuleRequest)
  | sleep (milliseconds : Nat)
  | await (task : Nat)

namespace Call

/-- What a task does that carries out a call. -/
def action : Call → Action
  | lint document => .lint document
  | save document => .save document
  | close uri => .close uri
  | refresh => .refresh
  | startOver => .startOver
  | setEnabled enabled => .setEnabled enabled
  | toggle => .toggle
  | violations document => .collect document .report
  | fix document choice => .collect document (.fix choice)
  | rules request => .request .direct request
  | sleep milliseconds => .sleep milliseconds
  | await task => .await task

/-- Whether a call asks for diagnostics of a document. -/
def names (uri : Url) : Call → Prop
  | lint document => document.uri = uri
  | save document => document.uri = uri
  | _ => False

@[simp] theorem delayed?_action (c : Call) : c.action.delayed? = none := by
  cases c <;> rfl

@[simp] theorem pass?_action (c : Call) : c.action.pass? = none := by
  cases c <;> rfl

end Call

/-- Whether a notice opens, changes or saves a document, or moves the cursor in it. -/
def Server.Notice.names (uri : Url) : Server.Notice → Prop
  | .opened document => document.uri = uri
  | .changed u _ _ => u = uri
  | .saved u _ => u = uri
  | .cursorMoved u _ => u = uri
  | _ => False

/-- The snapshot that a notice leads to: what is stored of the document it names. -/
def Server.Notice.snapshot? (d : Desk) : Server.Notice → Option Document
  | .opened document => some document
  | .changed uri version texts =>
    texts.getLast?.bind fun text => (d.updateDocument uri text (some version)).1
  | .saved uri (some text) => (d.updateDocument uri text none).1
  | .saved uri none => d.document? uri
  | .cursorMoved uri _ => d.document? uri
  | _ => none

namespace Desk

theorem document?_uri {d : Desk} {uri : Url} {document : Document}
    (h : d.document? uri = some document) : document.uri = uri := by
  simpa using List.find?_some h

/-- A text is stored for a document that is open, or nothing is done. -/
theorem updateDocument_cases (d : Desk) (uri : Url) (text : String) (version : Option Int) :
    d.updateDocument uri text version = (none, d) ∨
    ∃ document : Document, document.uri = uri ∧ (∃ old ∈ d.visible, old.uri = document.uri) ∧
      d.updateDocument uri text version = (some document, d.putDocument document) := by
  unfold updateDocument
  split
  · exact .inl rfl
  · next old hold =>
      have huri : old.uri = uri := document?_uri hold
      exact .inr ⟨{ old with text, version := version.getD old.version }, huri,
        ⟨old, List.mem_of_find?_eq_some hold, rfl⟩, rfl⟩

theorem updateDocument_uri {d : Desk} {uri : Url} {text : String} {version : Option Int}
    {document : Document} (h : (d.updateDocument uri text version).1 = some document) :
    document.uri = uri := by
  rcases d.updateDocument_cases uri text version with heq | ⟨v, huri, -, heq⟩
  · rw [heq] at h
    cases h
  · rw [heq] at h
    exact Option.some.inj h ▸ huri

section Notices

open Server (Notice settingsOf)

/-- What a notice can do to a desk. -/
inductive NoticeSpec (d : Desk) : Notice → Desk → Prop where
  | idles {notice : Notice} (hs : notice.snapshot? d = none) : NoticeSpec d notice d
  | opens (document : Document) :
      NoticeSpec d (.opened document) ((d.putDocument document).start (.lint document))
  | edits {uri : Url} {version : Int} {texts : List String} {document : Document}
      (hs : Notice.snapshot? d (.changed uri version texts) = some document)
      (hopen : ∃ old ∈ d.visible, old.uri = document.uri) :
      NoticeSpec d (.changed uri version texts) ((d.putDocument document).didChange document)
  | saves {uri : Url} {document : Document} (hs : d.document? uri = some document) :
      NoticeSpec d (.saved uri none) (d.start (.save document))
  /-- The text is stored first. -/
  | savesText {uri : Url} {text : String} {document : Document}
      (hs : Notice.snapshot? d (.saved uri (some text)) = some document)
      (hopen : ∃ old ∈ d.visible, old.uri = document.uri) :
      NoticeSpec d (.saved uri (some text)) ((d.putDocument document).start (.save document))
  | closes (uri : Url) : NoticeSpec d (.closed uri) ((d.dropDocument uri).closeDocument uri)
  | configures (settings : Json) :
      NoticeSpec d (.configured settings)
        ({ d with settings := settingsOf (some settings) }.forgetAll.clearAll.start .lintVisible)
  | invalidates (uris : List Url) :
      NoticeSpec d (.filesChanged uris) (d.forgetAll.clearAll.start .lintVisible)
  | moves {uri : Url} {line : Nat} {document : Document}
      (hs : d.document? uri = some document) :
      NoticeSpec d (.cursorMoved uri line)
        (cursorMoved { d with cursor := some (uri, line) } document)
  | points {uri : Url} {line : Nat} (hs : d.document? uri = none) :
      NoticeSpec d (.cursorMoved uri line) { d with cursor := some (uri, line) }

theorem changed_spec (d : Desk) (uri : Url) (version : Int) (texts : List String) :
    NoticeSpec d (.changed uri version texts) (Notice.apply d (.changed uri version texts)) := by
  cases htext : texts.getLast? with
  | none =>
      rw [Notice.apply, htext]
      exact .idles (by rw [Notice.snapshot?, htext]; rfl)
  | some text =>
      have hs : Notice.snapshot? d (.changed uri version texts) =
          (d.updateDocument uri text (some version)).1 := by
        rw [Notice.snapshot?, htext]
        rfl
      simp only [Notice.apply, htext]
      rcases d.updateDocument_cases uri text (some version) with heq | ⟨document, -, hopen, heq⟩
      · rw [heq] at hs ⊢
        exact .idles hs
      · rw [heq] at hs ⊢
        exact .edits hs hopen

theorem saved_spec (d : Desk) (uri : Url) (text : Option String) :
    NoticeSpec d (.saved uri text) (Notice.apply d (.saved uri text)) := by
  cases text with
  | none =>
      cases hs : d.document? uri with
      | none =>
          rw [Notice.apply, hs]
          exact .idles hs
      | some document =>
          rw [Notice.apply, hs]
          exact .saves hs
  | some text =>
      have hs : Notice.snapshot? d (.saved uri (some text)) =
          (d.updateDocument uri text none).1 := rfl
      rw [Notice.apply]
      rcases d.updateDocument_cases uri text none with heq | ⟨document, -, hopen, heq⟩
      · rw [heq] at hs ⊢
        exact .idles hs
      · rw [heq] at hs ⊢
        exact .savesText hs hopen

theorem cursorMoved_spec (d : Desk) (uri : Url) (line : Nat) :
    NoticeSpec d (.cursorMoved uri line) (Notice.apply d (.cursorMoved uri line)) := by
  have hsame : document? { d with cursor := some (uri, line) } uri = d.document? uri := rfl
  rw [Notice.apply]
  cases hs : d.document? uri with
  | none =>
      rw [hsame, hs]
      exact .points hs
  | some document =>
      rw [hsame, hs]
      exact .moves hs

theorem notice_spec (d : Desk) (notice : Notice) : NoticeSpec d notice (notice.apply d) := by
  cases notice with
  | started => exact .idles rfl
  | opened document => exact .opens document
  | changed uri version texts => exact changed_spec d uri version texts
  | saved uri text => exact saved_spec d uri text
  | closed uri => exact .closes uri
  | configured settings => exact .configures settings
  | filesChanged uris =>
      rw [Notice.apply]
      split
      · exact .invalidates uris
      · exact .idles rfl
  | cursorMoved uri line => exact cursorMoved_spec d uri line

end Notices

end Desk

/-- What a host does. -/
inductive HostEvent where
  /-- It lets a task carry out a call. -/
  | starts (call : Call)
  /-- It waits for calls itself. -/
  | waits (calls : List Call)
  | requests (document : Document)
  | edits (document : Document)
  | moves (document : Document)
  /-- It shows other documents. -/
  | shows (documents : List Document)
  | configures (settings : SettingsLayers)
  /-- It passes on a notice of a client. -/
  | notices (notice : Server.Notice)

namespace HostEvent

/-- The desk after an event. -/
def apply (d : Desk) : HostEvent → Desk
  | starts call => d.start call.action
  | waits calls => { d with tasks := d.tasks ++ [(Desk.host, calls.map Call.action)] }
  | requests document => d.lintSoon document
  | edits document => d.didChange document
  | moves document => d.cursorMoved document
  | shows documents => { d with visible := documents }
  | configures settings => { d with settings }
  | notices notice => notice.apply d

/-- Whether an event opens, shows, changes, saves or lints a document or moves the cursor in it. -/
def names (uri : Url) : HostEvent → Prop
  | starts call => call.names uri
  | waits calls => ∃ call ∈ calls, call.names uri
  | requests document => document.uri = uri
  | edits document => document.uri = uri
  | moves document => document.uri = uri
  | shows documents => ∃ document ∈ documents, document.uri = uri
  | configures _ => False
  | notices notice => notice.names uri

/-- Whether an event brings a snapshot to a desk. -/
def brings (d : Desk) (document : Document) : HostEvent → Prop
  | starts call => call.action.snapshot? = some document
  | waits calls => ∃ call ∈ calls, call.action.snapshot? = some document
  | requests v => v = document
  | edits v => v = document
  | moves v => v = document
  | shows documents => document ∈ documents
  | configures _ => False
  | notices notice => notice.snapshot? d = some document

/-- Whether a host serves a client: documents come, change and go, and settings change, by notices
only. -/
def IsClient : HostEvent → Prop
  | starts call => call.action.snapshot? = none
  | waits calls => ∀ call ∈ calls, call.action.snapshot? = none
  | notices _ => True
  | _ => False

end HostEvent

namespace Desk

/-- One move of a run in which the host does only what `ok` allows. -/
inductive Move (ok : HostEvent → Prop) : Desk → Desk → Prop where
  /-- A task does its next action. -/
  | works {d : Desk} (task : Nat) : Move ok d (d.advance task)
  /-- Something else than the pass state changes: time, files, caches, answers of the user. -/
  | drifts {d d' : Desk} (h : d'.passState = d.passState) : Move ok d d'
  | hosts {d : Desk} (e : HostEvent) (h : ok e) : Move ok d (e.apply d)

/-- A run of moves. -/
abbrev Run (ok : HostEvent → Prop) : Desk → Desk → Prop :=
  Relation.ReflTransGen (Move ok)

/-- Lets tasks do an action each, in the given order. -/
def works (d : Desk) (tasks : List Nat) : Desk :=
  tasks.foldl advance d

/-- A desk on which nothing has happened yet. -/
structure IsFresh (d : Desk) : Prop where
  schedules : d.schedules = []
  generation : d.generation = 0
  enabled : d.enabled = true
  events : d.events = []
  history : d.history = []
  tasks : d.tasks = []
  nextTask : 0 < d.nextTask

/-! ### The desk's own order -/

section Order

-- moves of any kind, as long as tasks may work and the desk may choose between them
variable {R : Desk → Desk → Prop} (hworks : ∀ (d : Desk) (task : Nat), R d (d.advance task))
  (hchooses : ∀ d d' : Desk, d'.passState = d.passState → d'.ignores = d.ignores → R d d')

include hworks

theorem works_order (tasks : List Nat) (d : Desk) :
    Relation.ReflTransGen R d (d.works tasks) := by
  induction tasks generalizing d with
  | nil => exact .refl
  | cons task tasks ih => exact .head (hworks d task) (ih (d.advance task))

include hchooses

theorem step_order {d d' : Desk} (h : d.step = some d') : R d d' := by
  have hnext : ∀ {d₁ : Desk}, d₁.runNext = some d' → d₁.passState = d.passState →
      d₁.ignores = d.ignores → R d d' := by
    intro d₁ hrun hpassState hignores
    exact hchooses _ _ ((passState_runNext hrun).trans hpassState)
      ((field_runNext Desk.ignores (fun _ _ _ _ => rfl) hrun).trans hignores)
  unfold step at h
  split at h
  · cases h
    exact hworks d _
  · split at h
    · dsimp only at h
      split at h
      · cases h
        exact hchooses _ _ rfl rfl
      · exact hnext h rfl rfl
    · exact hnext h rfl rfl

theorem settle_order (fuel : Nat) (d : Desk) : Relation.ReflTransGen R d (settle fuel d) := by
  induction fuel generalizing d with
  | zero => exact .refl
  | succ fuel ih =>
      unfold settle
      split
      · next next hstep => exact .head (step_order hworks hchooses hstep) (ih next)
      · exact .refl

theorem finishHost_order (fuel : Nat) (d : Desk) :
    Relation.ReflTransGen R d (finishHost fuel d) := by
  induction fuel generalizing d with
  | zero => exact .refl
  | succ fuel ih =>
      unfold finishHost
      split
      · exact .refl
      · split
        · next next hstep => exact .head (step_order hworks hchooses hstep) (ih next)
        · split
          · next next htick =>
              exact .head (hchooses _ _ (passState_tick htick)
                (field_tick Desk.ignores (fun _ _ _ _ _ => rfl) htick)) (ih next)
          · exact .refl

theorem perform_order {calls : List Call} {d : Desk} (fuel : Nat)
    (hwaits : R d (HostEvent.apply d (.waits calls))) :
    Relation.ReflTransGen R d (d.perform fuel (calls.map Call.action)) := by
  unfold perform
  refine .head hwaits (.trans (.single ?_)
    ((finishHost_order hworks hchooses fuel _).trans (settle_order hworks hchooses fuel _)))
  exact hchooses _ _ rfl rfl

end Order

section Runs

variable {ok : HostEvent → Prop}

theorem works_run (tasks : List Nat) (d : Desk) : Run ok d (d.works tasks) :=
  works_order (fun _ task => .works task) tasks d

theorem host_run (e : HostEvent) (h : ok e) (d : Desk) : Run ok d (e.apply d) :=
  .single (.hosts e h)

/-- The desk's own order of tasks is one of the interleavings. -/
theorem perform_run (calls : List Call) (h : ok (.waits calls)) (fuel : Nat) (d : Desk) :
    Run ok d (d.perform fuel (calls.map Call.action)) :=
  perform_order (fun _ task => .works task) (fun _ _ hpassState _ => .drifts hpassState) fuel
    (.hosts _ h)

end Runs

/-! ### Small desks -/

/-- A document without a file. -/
def draft (name text : String) : Document where
  uri := { scheme := "untitled", path := name, hierarchical := false }
  text := text
  language := "markdown"
  version := 1

/-- A desk with an engine that takes a second and finds nothing. -/
def quietDesk : Desk where
  engine := .fixed (.output (.violations []))
  engineDelay := 1000

theorem quietDesk_isFresh : quietDesk.IsFresh :=
  ⟨rfl, rfl, rfl, rfl, rfl, rfl, Nat.one_pos⟩

/-- That desk with a loop over two visible documents, which waits for the engine on the first. -/
def loopingDesk : Desk :=
  let d := HostEvent.apply quietDesk (.shows [draft "A" "a\n", draft "B" "b\n"])
  (HostEvent.apply d (.starts .startOver)).perform 20 []

theorem loopingDesk_run : Run (fun _ => True) quietDesk loopingDesk := by
  unfold loopingDesk
  dsimp only
  refine (host_run (.shows [draft "A" "a\n", draft "B" "b\n"]) trivial _).trans ?_
  exact (host_run (.starts .startOver) trivial _).trans (perform_run [] trivial 20 _)

end Desk

end LintDesk
