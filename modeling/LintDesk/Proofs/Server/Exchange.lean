import LintDesk.Proofs.Desk.Interleaving
import LintDesk.Proofs.Lookup
import LintDesk.Server.Serve

/-! # Calls on the publisher

Calls on the publisher begin, and send their messages one by one, in any order. The client hears
what is sent until the server exits. What it heard last of a document comes from the call about the
document that began last, or from one that then still had to speak of it; hence from the last one
if it overtook none. A session is an exchange in which every call ends before the next one begins.
-/

namespace LintDesk.Server

/-- What a call still has to send. -/
def owed (sending : List (Nat × List Publication)) (call : Nat) : List Publication :=
  (sending.lookup call).getD []

/-- A call on the publisher: what it was to send, and the calls under way when it began. -/
structure Delivery where
  messages : List Publication
  underWay : List (Nat × List Publication)
  deriving DecidableEq

/-- Whether a call has something to say about a document. -/
def Delivery.Concerns (d : Delivery) (uri : Url) : Prop :=
  uri ∈ d.messages.map (·.uri)

instance (d : Delivery) (uri : Url) : Decidable (d.Concerns uri) :=
  inferInstanceAs (Decidable (uri ∈ d.messages.map (·.uri)))

/-- An exchange with a client: calls are numbered in the order they began. -/
structure Exchange where
  publisher : Publisher := {}
  exited : Bool := false
  deliveries : List Delivery := []
  /-- What the client heard, with the call it came from. -/
  heard : List (Nat × Publication) := []

namespace Exchange

/-- What may happen next in an exchange. -/
inductive Move where
  | start (e : Event)
  | send (call : Nat)
  | exit

/-- One step of an exchange; nothing is heard after the exit. -/
def step (x : Exchange) : Move → Exchange
  | .start e =>
    { x with
      publisher := x.publisher.start x.deliveries.length e
      deliveries := x.deliveries ++
        [⟨(Publisher.plan x.publisher.shown e).2, x.publisher.sending⟩] }
  | .send call =>
    let message? := (owed x.publisher.sending call).head?
    { x with
      publisher := x.publisher.send call
      heard := if x.exited then x.heard else x.heard ++ (message?.map (call, ·)).toList }
  | .exit => { x with exited := true }

/-- Takes some steps. -/
def run (x : Exchange) (moves : List Move) : Exchange :=
  moves.foldl step x

/-- What the client heard last of a document, with the call it came from. -/
def last? (x : Exchange) (uri : Url) : Option (Nat × Publication) :=
  (x.heard.filter (·.2.uri = uri)).getLast?

/-- What a call says about a document. -/
def message? (x : Exchange) (call : Nat) (uri : Url) : Option Publication :=
  x.deliveries[call]?.bind fun d => d.messages.find? (·.uri = uri)

/-- The call about a document that began last. -/
structure Latest (x : Exchange) (uri : Url) (call : Nat) (d : Delivery) : Prop where
  begun : x.deliveries[call]? = some d
  concerns : d.Concerns uri
  last : ∀ later ∈ x.deliveries.drop (call + 1), ¬later.Concerns uri

end Exchange

/-! ### What calls owe -/

theorem exists_mem_of_owed {sending : List (Nat × List Publication)} {c : Nat} {m : Publication}
    (h : m ∈ owed sending c) : ∃ other ∈ sending, m ∈ other.2 := by
  unfold owed at h
  cases hl : sending.lookup c with
  | none => simp [hl] at h
  | some rest =>
      obtain ⟨before, after, rfl, -⟩ := List.lookup_eq_some_iff.mp hl
      exact ⟨(c, rest), by simp, by simpa [hl] using h⟩

namespace Publisher

variable {p : Publisher} {call c : Nat} {e : Event}

theorem owed_send :
    owed (p.send call).sending c =
      if c = call then (owed p.sending c).tail else owed p.sending c := by
  unfold send owed
  split
  · next next rest h =>
      rw [lookup_map_set]
      split <;> simp_all
  · next h =>
      rw [lookup_filter_ne]
      split
      · next hc =>
          subst hc
          cases hl : p.sending.lookup c with
          | none => rfl
          | some messages =>
              cases messages with
              | nil => rfl
              | cons m rest => exact absurd hl (h m rest)
      · rfl

theorem lookup_send (h : p.sending.lookup c = none) : (p.send call).sending.lookup c = none := by
  unfold send
  split
  · rw [lookup_map_set]
    split <;> simp [h]
  · rw [lookup_filter_ne]
    split
    · rfl
    · exact h

theorem owed_start (h : p.sending.lookup call = none) :
    owed (p.start call e).sending c =
      if c = call then (plan p.shown e).2 else owed p.sending c := by
  simp only [start, owed, List.lookup_append]
  by_cases hc : c = call
  · subst hc
    simp [h]
  · have hne : (c == call) = false := by simpa using hc
    simp [List.lookup_cons, hne, hc]

theorem nodup_plan {shown : List Url} (h : shown.Nodup) (e : Event) :
    (plan shown e).1.Nodup ∧ ((plan shown e).2.map (·.uri)).Nodup := by
  cases e with
  | publish d diagnostics =>
      refine ⟨?_, by simp [plan]⟩
      by_cases hshown : d.uri ∈ shown
      · simpa [plan, hshown] using h
      · simpa [plan, hshown, List.nodup_append] using ⟨h, fun u hu heq => hshown (heq ▸ hu)⟩
  | clear uri => exact ⟨h.filter _, by simp [plan]⟩
  | clearAll =>
      refine ⟨by simp [plan], ?_⟩
      have huris : (shown.map Publication.empty).map (·.uri) = shown := by
        simp [Function.comp_def, Publication.empty]
      rw [plan, huris]
      exact h

theorem send_shown : (p.send call).shown = p.shown := by
  unfold send
  split <;> rfl

end Publisher

/-! ### Every run of calls -/

namespace Exchange

variable {x : Exchange} {uri : Url} {call c : Nat} {d : Delivery} {m : Publication}

/-- Only calls that have begun are under way, what they owe or have said is part of what they were
to send, and each of them speaks of a document once. -/
structure Sound (x : Exchange) : Prop where
  shown : x.publisher.shown.Nodup
  once : ∀ d ∈ x.deliveries, (d.messages.map (·.uri)).Nodup
  fresh : ∀ {c : Nat}, x.deliveries.length ≤ c → x.publisher.sending.lookup c = none
  owed : ∀ {c : Nat} {m : Publication}, m ∈ owed x.publisher.sending c →
    ∃ d, x.deliveries[c]? = some d ∧ m ∈ d.messages
  heard : ∀ {c : Nat} {m : Publication}, (c, m) ∈ x.heard →
    ∃ d, x.deliveries[c]? = some d ∧ m ∈ d.messages

/-- What the calls under way still have to say about a document comes from the latest call about
it, or was owed when that one began. So was what the client heard last, once the latest call has
spoken. -/
structure Followed (x : Exchange) (uri : Url) (call : Nat) (d : Delivery) : Prop where
  owed : ∀ {c : Nat} {m : Publication}, m ∈ owed x.publisher.sending c → m.uri = uri →
    c = call ∨ m ∈ Server.owed d.underWay c
  answered : x.exited = false →
    (∃ m ∈ Server.owed x.publisher.sending call, m.uri = uri) ∨
      ∃ c m, x.last? uri = some (c, m) ∧ (c = call ∨ m ∈ Server.owed d.underWay c)

theorem owed_step_start (h : x.Sound) (e : Event) :
    owed (x.step (.start e)).publisher.sending c =
      if c = x.deliveries.length then (Publisher.plan x.publisher.shown e).2
      else owed x.publisher.sending c :=
  Publisher.owed_start (h.fresh (Nat.le_refl _))

/-- The call that begins, after those that have begun before. -/
theorem getElem?_step_start (e : Event) :
    (x.step (.start e)).deliveries[c]? =
      if c = x.deliveries.length then
        some ⟨(Publisher.plan x.publisher.shown e).2, x.publisher.sending⟩
      else x.deliveries[c]? := by
  simp only [step, List.getElem?_append, List.getElem?_singleton]
  split <;> split <;> simp_all <;> omega

theorem Sound.step_start (h : x.Sound) (e : Event) : (x.step (.start e)).Sound := by
  obtain ⟨hshown, hmessages⟩ := Publisher.nodup_plan h.shown e
  refine ⟨hshown, ?_, ?_, ?_, ?_⟩
  · intro d hd
    rcases List.mem_append.mp hd with hd | hd
    · exact h.once d hd
    · rw [List.mem_singleton.mp hd]
      exact hmessages
  · intro c hc
    simp only [Exchange.step, List.length_append, List.length_singleton] at hc
    have hne : (c == x.deliveries.length) = false := by simpa using by omega
    change (x.publisher.sending ++ [(x.deliveries.length, _)]).lookup c = none
    rw [List.lookup_append, h.fresh (by omega)]
    simp [List.lookup_cons, hne]
  · intro c m hm
    rw [owed_step_start h] at hm
    rw [getElem?_step_start]
    split at hm
    · next hc => exact ⟨_, if_pos hc, hm⟩
    · next hc => simpa [hc] using h.owed hm
  · intro c m hm
    obtain ⟨d, hd, hmem⟩ := h.heard hm
    refine ⟨d, ?_, hmem⟩
    rw [getElem?_step_start, if_neg, hd]
    rintro rfl
    simp at hd

theorem Sound.step_send (h : x.Sound) (call : Nat) : (x.step (.send call)).Sound := by
  have hshown : (x.publisher.send call).shown.Nodup := by
    rw [Publisher.send_shown]
    exact h.shown
  refine ⟨hshown, h.once, fun hc => Publisher.lookup_send (h.fresh hc),
    fun {c m} hm => ?_, fun {c m} hm => ?_⟩
  · rw [Exchange.step, Publisher.owed_send] at hm
    split at hm
    · exact h.owed (List.mem_of_mem_tail hm)
    · exact h.owed hm
  · simp only [Exchange.step] at hm
    split at hm
    · exact h.heard hm
    · rcases List.mem_append.mp hm with hm | hm
      · exact h.heard hm
      · simp only [Option.mem_toList, Option.map_eq_some_iff, Prod.mk.injEq] at hm
        obtain ⟨m, hhead, rfl, rfl⟩ := hm
        exact h.owed (List.mem_of_mem_head? hhead)

theorem Sound.step (h : x.Sound) (move : Move) : (x.step move).Sound := by
  cases move with
  | start e => exact h.step_start e
  | send call => exact h.step_send call
  | exit => exact ⟨h.shown, h.once, h.fresh, h.owed, h.heard⟩

theorem last?_step_send (hopen : x.exited = false) :
    (x.step (.send call)).last? uri =
      match (owed x.publisher.sending call).head? with
      | some m => if m.uri = uri then some (call, m) else x.last? uri
      | none => x.last? uri := by
  simp only [step, last?, hopen, Bool.false_eq_true, if_false, List.filter_append]
  cases (owed x.publisher.sending call).head? with
  | none => simp
  | some m => by_cases hm : m.uri = uri <;> simp [hm]

theorem Followed.start (hx : x.Sound)
    (h : ∀ {k d}, x.Latest uri k d → x.Followed uri k d) {e : Event}
    (hlatest : (x.step (.start e)).Latest uri call d) :
    (x.step (.start e)).Followed uri call d := by
  have hbegun := hlatest.begun
  rw [getElem?_step_start] at hbegun
  split at hbegun
  · next hcall =>
      -- the call that begins is the latest one: it owes its message, and all else was owed before
      cases hbegun
      refine ⟨fun {c m} hm _ => ?_, fun _ => .inl ?_⟩
      · rw [owed_step_start hx] at hm
        split at hm
        · next hc => exact .inl (hc.trans hcall.symm)
        · exact .inr hm
      · obtain ⟨m, hm, huri⟩ := List.mem_map.mp hlatest.concerns
        refine ⟨m, ?_, huri⟩
        rw [owed_step_start hx, if_pos hcall]
        exact hm
  · next hcall =>
      have hlt : call < x.deliveries.length := (List.getElem?_eq_some_iff.mp hbegun).1
      have hdrop : (x.step (.start e)).deliveries.drop (call + 1) = x.deliveries.drop (call + 1) ++
          [⟨(Publisher.plan x.publisher.shown e).2, x.publisher.sending⟩] :=
        List.drop_append_of_le_length hlt
      have hlast := hlatest.last
      rw [hdrop] at hlast
      have hbefore : x.Latest uri call d :=
        ⟨hbegun, hlatest.concerns, fun later hlater =>
          hlast later (List.mem_append_left _ hlater)⟩
      have hsilent : ∀ m ∈ (Publisher.plan x.publisher.shown e).2, m.uri ≠ uri :=
        fun m hm huri => hlast _ (List.mem_append_right _ (List.mem_singleton_self _))
          (List.mem_map.mpr ⟨m, hm, huri⟩)
      have hfollowed := h hbefore
      refine ⟨fun {c m} hm huri => ?_, fun hopen => ?_⟩
      · rw [owed_step_start hx] at hm
        split at hm
        · exact absurd huri (hsilent m hm)
        · exact hfollowed.owed hm huri
      · rw [owed_step_start hx, if_neg hcall]
        exact hfollowed.answered hopen

theorem Followed.send (h : x.Followed uri call d) (sender : Nat) :
    (x.step (.send sender)).Followed uri call d := by
  refine ⟨fun {c m} hm huri => ?_, fun hopen => ?_⟩
  · rw [Exchange.step, Publisher.owed_send] at hm
    split at hm
    · exact h.owed (List.mem_of_mem_tail hm) huri
    · exact h.owed hm huri
  · rw [last?_step_send (x := x) hopen, Exchange.step, Publisher.owed_send]
    cases hhead : (Server.owed x.publisher.sending sender).head? with
    | none =>
        have hnil : Server.owed x.publisher.sending sender = [] := List.head?_eq_none_iff.mp hhead
        refine (h.answered hopen).imp_left fun ⟨m, hm, huri⟩ => ⟨m, ?_, huri⟩
        split
        · next hc => simp [hc, hnil] at hm
        · exact hm
    | some m =>
        by_cases huri : m.uri = uri
        · exact .inr ⟨sender, m, if_pos huri, h.owed (List.mem_of_mem_head? hhead) huri⟩
        · refine (h.answered hopen).imp (fun ⟨n, hn, hnuri⟩ => ⟨n, ?_, hnuri⟩)
            fun ⟨c, n, hlast, hc⟩ => ⟨c, n, (if_neg huri).trans hlast, hc⟩
          split
          · next hc =>
              obtain ⟨rest, hrest⟩ := List.head?_eq_some_iff.mp hhead
              subst hc
              rw [hrest] at hn ⊢
              rcases List.mem_cons.mp hn with rfl | hn
              · exact absurd hnuri huri
              · exact hn
          · exact hn

/-- An exchange in which the latest call about every document is followed. -/
structure Orderly (x : Exchange) : Prop extends x.Sound where
  followed : ∀ {uri call d}, x.Latest uri call d → x.Followed uri call d

theorem orderly_empty : Orderly {} where
  shown := .nil
  once := by simp
  fresh _ := rfl
  owed h := by cases h
  heard h := by cases h
  followed h := by cases h.begun

theorem Orderly.step (h : x.Orderly) (move : Move) : (x.step move).Orderly where
  toSound := h.toSound.step move
  followed {uri call d} hlatest := by
    cases move with
    | start e => exact .start h.toSound h.followed hlatest
    | send sender =>
        exact (h.followed ⟨hlatest.begun, hlatest.concerns, hlatest.last⟩).send sender
    | exit =>
        have hbefore := h.followed ⟨hlatest.begun, hlatest.concerns, hlatest.last⟩
        exact ⟨hbefore.owed, fun hopen => Bool.noConfusion hopen⟩

theorem Orderly.run (h : x.Orderly) (moves : List Move) : (x.run moves).Orderly := by
  induction moves generalizing x with
  | nil => exact h
  | cons move moves ih => exact ih (h.step move)

theorem mem_of_last? (h : x.last? uri = some (c, m)) : (c, m) ∈ x.heard ∧ m.uri = uri := by
  simpa using List.mem_of_getLast? h

/-- A call says one thing about a document. -/
theorem Sound.message?_eq (h : x.Sound) (hd : x.deliveries[c]? = some d) (hm : m ∈ d.messages) :
    x.message? c m.uri = some m := by
  rw [message?, hd, Option.bind_some]
  have honce := h.once d (List.mem_of_getElem? hd)
  obtain ⟨before, after, hsplit⟩ := List.append_of_mem hm
  rw [hsplit, List.find?_append]
  rw [hsplit, List.map_append, List.map_cons, List.nodup_append] at honce
  have hnone : before.find? (·.uri = m.uri) = none := by
    simp only [List.find?_eq_none, decide_eq_true_eq]
    intro n hn heq
    exact honce.2.2 _ (List.mem_map_of_mem hn) _ List.mem_cons_self heq
  simp [hnone]

/-- Once all calls have ended, and if the server has not exited, the client heard last of a document
what one call says about it: the latest call about it, or one that still had this to send when the
latest began. If none had, it is the latest. -/
theorem last_of_latest (moves : List Move) {uri : Url} {call : Nat} {d : Delivery}
    (hlatest : (run {} moves).Latest uri call d) (hopen : (run {} moves).exited = false)
    (hended : (run {} moves).publisher.sending = []) :
    ∃ c m, (run {} moves).last? uri = some (c, m) ∧ (run {} moves).message? c uri = some m ∧
      (c = call ∨ m ∈ owed d.underWay c) ∧
      ((∀ other ∈ d.underWay, ∀ n ∈ other.2, n.uri ≠ uri) → c = call) := by
  have horderly := orderly_empty.run moves
  rcases (horderly.followed hlatest).answered hopen with ⟨m, hm, -⟩ | ⟨c, m, hlast, horigin⟩
  · rw [hended] at hm
    cases hm
  · obtain ⟨hheard, rfl⟩ := mem_of_last? hlast
    obtain ⟨d', hd', hm⟩ := horderly.heard hheard
    refine ⟨c, m, hlast, horderly.message?_eq hd' hm, horigin, fun hnone => ?_⟩
    rcases horigin with hc | howed
    · exact hc
    · obtain ⟨other, hother, hmem⟩ := exists_mem_of_owed howed
      exact absurd rfl (hnone other hother m hmem)

/-- Diagnostics that are taken back and published again, when nothing else is under way. -/
theorem last_of_latest_of_reopened :
    let draft := Desk.draft "A" "a\n"
    let x := run {} [.start (.publish draft []), .send 0, .send 0, .start .clearAll, .send 1,
      .start (.publish (Desk.draft "B" "b\n") []), .send 1, .start (.publish draft []), .send 3,
      .send 2, .send 3, .send 2]
    ∃ c m, x.last? draft.uri = some (c, m) ∧ x.message? c draft.uri = some m ∧ c = 3 := by
  intro draft x
  have hlatest : x.Latest draft.uri 3
      ⟨[⟨draft.uri, some 1, []⟩], [(2, [⟨(Desk.draft "B" "b\n").uri, some 1, []⟩])]⟩ :=
    ⟨by decide, by decide, by decide⟩
  obtain ⟨c, m, hlast, hmessage, -, hlatest⟩ := last_of_latest _ hlatest (by decide) (by decide)
  exact ⟨c, m, hlast, hmessage, hlatest (by decide)⟩

/-- Linting is turned off and on again before the first of the two has taken back what was shown.
Its empty list goes out last, and the diagnostics published meanwhile are gone. -/
theorem overtaken_clearAll_heard_last :
    let draft := Desk.draft "A" "a\n"
    let edited := { draft with text := "b\n", version := 2 }
    let x := run {} [.start (.publish draft []), .send 0, .send 0, .start .clearAll,
      .start .clearAll, .send 2, .start (.publish edited []), .send 3, .send 3, .send 1, .send 1]
    x.exited = false ∧ x.publisher.sending = [] ∧
      x.Latest draft.uri 3 ⟨[⟨draft.uri, some 2, []⟩], [(1, [.empty draft.uri])]⟩ ∧
      x.last? draft.uri = some (1, .empty draft.uri) := by
  intro draft edited x
  exact ⟨by decide, by decide, ⟨by decide, by decide, by decide⟩, by decide⟩

/-- After the exit the latest call speaks to nobody. -/
example :
    let draft := Desk.draft "A" "a\n"
    let edited := { draft with text := "b\n", version := 2 }
    let x := run {} [.start (.publish draft []), .send 0, .send 0, .exit,
      .start (.publish edited []), .send 1, .send 1]
    x.publisher.sending = [] ∧ x.last? draft.uri = some (0, ⟨draft.uri, some 1, []⟩) := by
  decide

/-! ### Calls that end before the next one begins -/

/-- A call sends all it has to send. -/
theorem run_sends (messages : List Publication) (h : x.publisher.sending = [(call, messages)]) :
    let y := x.run (List.replicate (messages.length + 1) (.send call))
    y.publisher = { x.publisher with sending := [], sent := x.publisher.sent ++ messages } ∧
      y.exited = x.exited ∧
      y.heard.map (·.2) = x.heard.map (·.2) ++ if x.exited then [] else messages := by
  induction messages generalizing x with
  | nil => simp [run, Exchange.step, Publisher.send, h, Server.owed]
  | cons m rest ih =>
      have hsent : (x.step (.send call)).publisher.sending = [(call, rest)] := by
        simp [Exchange.step, Publisher.send, h]
      obtain ⟨hpublisher, hexited, hheard⟩ := ih hsent
      refine ⟨hpublisher.trans ?_, hexited, hheard.trans ?_⟩
      · simp [Exchange.step, Publisher.send, h]
      · by_cases hx : x.exited <;> simp [Exchange.step, Server.owed, h, hx]

/-- A call that ends before anything else happens is one whose messages go out at once. -/
theorem exists_run_tell (h : x.publisher.sending = []) (e : Event) :
    ∃ moves, (x.run moves).publisher = x.publisher.tell e ∧ (x.run moves).exited = x.exited ∧
      (x.run moves).heard.map (·.2) = x.heard.map (·.2) ++
        if x.exited then [] else (Publisher.plan x.publisher.shown e).2 := by
  have hstart : (x.step (.start e)).publisher.sending =
      [(x.deliveries.length, (Publisher.plan x.publisher.shown e).2)] := by
    simp [Exchange.step, Publisher.start, h]
  obtain ⟨hpublisher, hexited, hheard⟩ := run_sends _ hstart
  let sends := List.replicate ((Publisher.plan x.publisher.shown e).2.length + 1)
    (Move.send x.deliveries.length)
  refine ⟨.start e :: sends, hpublisher.trans ?_, hexited, hheard⟩
  simp [Exchange.step, Publisher.start, Publisher.tell, h]

theorem exists_run_tells (h : x.publisher.sending = []) (events : List Event) :
    ∃ moves news, (x.run moves).publisher = events.foldl Publisher.tell x.publisher ∧
      (x.run moves).publisher.sending = [] ∧ (x.run moves).exited = x.exited ∧
      (x.run moves).publisher.sent = x.publisher.sent ++ news ∧
      (x.run moves).heard.map (·.2) = x.heard.map (·.2) ++ if x.exited then [] else news := by
  induction events generalizing x with
  | nil => exact ⟨[], [], rfl, h, rfl, by simp [run], by simp [run]⟩
  | cons e events ih =>
      obtain ⟨first, hpublisher, hexited, hheard⟩ := exists_run_tell h e
      have hidle : (x.run first).publisher.sending = [] := by
        rw [hpublisher]
        exact h
      obtain ⟨moves, news, hp, hs, hx, hsent, hh⟩ := ih hidle
      refine ⟨first ++ moves, (Publisher.plan x.publisher.shown e).2 ++ news, ?_⟩
      rw [run, List.foldl_append]
      change ((x.run first).run moves).publisher = _ ∧ _
      refine ⟨by rw [hp, hpublisher, List.foldl_cons], hs, hx.trans hexited, ?_, ?_⟩
      · change ((x.run first).run moves).publisher.sent = _
        rw [hsent, hpublisher]
        simp [Publisher.tell]
      · change ((x.run first).run moves).heard.map (·.2) = _
        rw [hh, hheard, hexited]
        by_cases hx : x.exited <;> simp [hx]

end Exchange

/-- A publication that goes to the client. -/
def Outgoing.publication? : Outgoing → Option Publication
  | .publication p => some p
  | _ => none

namespace Session

variable {s : Session}

/-- The publications among what a session has sent. -/
def publications (s : Session) : List Publication :=
  s.sent.filterMap Outgoing.publication?

/-- The client hears from the session what it hears in an exchange all of whose calls have ended. -/
structure Follows (s : Session) (x : Exchange) : Prop where
  publisher : x.publisher = s.publisher
  ended : x.publisher.sending = []
  exited : x.exited = true ↔ s.phase = .exited
  heard : s.publications = x.heard.map (·.2)

theorem Follows.putDesk {x : Exchange} (h : s.Follows x) (d : Desk) :
    ∃ moves, (s.putDesk d).Follows (x.run moves) := by
  obtain ⟨moves, news, hpublisher, hidle, hexited, hsent, hheard⟩ :=
    Exchange.exists_run_tells h.ended (d.events.drop s.desk.events.length)
  have hp : (s.putDesk d).publisher = (x.run moves).publisher := by
    rw [hpublisher, h.publisher]
    rfl
  refine ⟨moves, ⟨hp.symm, hidle, by rw [hexited]; exact h.exited, ?_⟩⟩
  have hnews : (s.putDesk d).publisher.sent.drop s.publisher.sent.length = news := by
    rw [hp, hsent, h.publisher, List.drop_left]
  rw [hheard, ← h.heard]
  by_cases hexit : s.phase = .exited
  · simp [publications, Session.putDesk, hexit, h.exited.mpr hexit]
  · have hrunning : x.exited = false := by simpa using mt h.exited.mp hexit
    have hpublication : Outgoing.publication? ∘ Outgoing.publication = some := rfl
    have hquestion : Outgoing.publication? ∘ Outgoing.question = fun _ => none := rfl
    have hlog : Outgoing.publication? ∘ Outgoing.log .log = fun _ => none := rfl
    rw [← hnews]
    simp [publications, Session.putDesk, hexit, hrunning, List.filterMap_append,
      List.filterMap_map, -List.map_drop, hpublication, hquestion, hlog, Outgoing.publication?]

/-- Some exchange is what the session's client hears. -/
def IsExchange (s : Session) : Prop :=
  ∃ moves, s.Follows (Exchange.run {} moves)

/-- Only the publisher, what was sent, and whether the server has exited matter. -/
theorem IsExchange.congr {t : Session} (h : s.IsExchange) (hpublisher : t.publisher = s.publisher)
    (hphase : t.phase = .exited ↔ s.phase = .exited)
    (hsent : t.publications = s.publications) : t.IsExchange := by
  obtain ⟨moves, hs⟩ := h
  exact ⟨moves, hs.publisher.trans hpublisher.symm, hs.ended, hs.exited.trans hphase.symm,
    hsent.trans hs.heard⟩

theorem IsExchange.putDesk (h : s.IsExchange) (d : Desk) : (s.putDesk d).IsExchange := by
  obtain ⟨before, hs⟩ := h
  obtain ⟨moves, hmoves⟩ := hs.putDesk d
  refine ⟨before ++ moves, ?_⟩
  rw [Exchange.run, List.foldl_append]
  exact hmoves

theorem IsExchange.send (h : s.IsExchange) {m : Outgoing} (hm : m.publication? = none) :
    (s.send m).IsExchange :=
  h.congr rfl .rfl (by simp [publications, Session.send, hm])

theorem IsExchange.exit (h : s.IsExchange) : IsExchange { s with phase := .exited } := by
  obtain ⟨moves, hs⟩ := h
  refine ⟨moves ++ [.exit], ?_⟩
  rw [Exchange.run, List.foldl_append]
  exact ⟨hs.publisher, hs.ended, by simp [Exchange.step], hs.heard⟩

theorem IsExchange.sendEdit (h : s.IsExchange) (uri : Url) (e : Option TextEdit) :
    (s.sendEdit uri e).IsExchange := by
  cases e with
  | none => exact h
  | some e => exact h.send rfl

theorem IsExchange.execute (h : s.IsExchange) (fuel : Nat) (command : String)
    (arguments : List Json) : (s.execute fuel command arguments).2.IsExchange := by
  unfold Session.execute
  split
  · split
    · unfold fixLine
      split
      · exact h.sendEdit _ _
      · exact h
    · exact h
  · split
    · unfold fixDocument
      split
      · exact (h.putDesk _).sendEdit _ _
      · exact h
    · exact h
  · exact (h.putDesk _).send rfl
  · split
    · have hpages : IsExchange { s with pages := s.pages.tail } := h.congr rfl .rfl rfl
      exact hpages.send rfl
    · exact h
  · exact h

theorem IsExchange.answer (h : s.IsExchange) (fuel : Nat) (r : Request) :
    (s.answer fuel r).2.IsExchange := by
  cases r with
  | codeActions q =>
      simp only [Session.answer]
      split
      · exact h
      · exact h.putDesk _
  | execute command arguments => exact h.execute fuel command arguments
  | formatRange uri range =>
      simp only [Session.answer]
      split
      · exact h
      · exact h.putDesk _

theorem IsExchange.request (h : s.IsExchange) (fuel : Nat) (method : String)
    (params : Option Json) : (s.request fuel method params).2.IsExchange := by
  unfold Session.request
  split
  · exact h
  · next hopen =>
      split
      · exact h
      · exact h.exit
      · split
        · split
          · exact h.congr rfl (by simp [Session.start, hopen]) rfl
          · exact h
        · exact h
      · split
        · exact h
        · split
          · exact h.congr rfl (by simp [hopen]) rfl
          · split
            · exact h.answer _ _
            · exact h
          · exact h
          · exact h

theorem IsExchange.hear (h : s.IsExchange) (fuel : Nat) (n : Notice) :
    (s.hear fuel n).IsExchange := by
  unfold Session.hear
  split
  · exact ((h.send rfl).send rfl).putDesk _
  · exact h.putDesk _

theorem IsExchange.notify (h : s.IsExchange) (fuel : Nat) (method : String)
    (params : Option Json) : (s.notify fuel method params).IsExchange := by
  unfold Session.notify
  split
  · exact h.exit
  · split
    · next hphase => exact h.congr rfl (by simp [hphase]) rfl
    · exact h
  · split
    · split
      · exact h.hear _ _
      · exact h
    · exact h
  · exact h

/-- The sessions that come about from one by messages of the client, time and changes of files. -/
inductive Served (s : Session) : Session → Prop
  | here : Served s s
  | request {t : Session} (h : Served s t) (fuel : Nat) (method : String) (params : Option Json) :
    Served s (t.request fuel method params).2
  | notify {t : Session} (h : Served s t) (fuel : Nat) (method : String) (params : Option Json) :
    Served s (t.notify fuel method params)
  | advance {t : Session} (h : Served s t) (fuel milliseconds : Nat) :
    Served s (t.advance fuel milliseconds)
  | withTree {t : Session} (h : Served s t) (tree : Disk) : Served s (t.withTree tree)

/-- What the client of a session hears is what it hears in some exchange. -/
theorem isExchange_of_served {tree : Disk} {home configDir : Path}
    {replies : String → List (Option Json)}
    (h : Served (create tree home configDir replies) s) : s.IsExchange := by
  induction h with
  | here => exact ⟨[], rfl, rfl, by simp [Exchange.run, create], rfl⟩
  | request _ fuel method params ih => exact ih.request fuel method params
  | notify _ fuel method params ih => exact ih.notify fuel method params
  | advance _ fuel milliseconds ih => exact ih.putDesk _
  | withTree _ tree ih => exact ih.congr rfl .rfl rfl

end Session

end LintDesk.Server
