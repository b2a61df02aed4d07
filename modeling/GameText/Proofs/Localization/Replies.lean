import GameText.Proofs.Localization.Rehearsal
import GameText.Proofs.Markup.Tokens
import GameText.Proofs.Text.ReplaceAll

/-!
# What becomes of a server's answers

A server may answer a request with anything. An answer that is JSON and no object, or that has a
message or a content of another kind, is dug into all the same: the failure that comes of it is none
that a caller expects, and a worker that meets it neither reports its job nor comes to its end.
Every other answer ends in a target text or in a failure to report (`reported_iff_no_misshapen`).

The law of a conversation says which turns it took and when one of them broke it off
(`Talk.Breaks`); it passes from the parts of a conversation to the whole, and from there to a
worker's whole plan (`Rehearsal.watched`).
-/

namespace GameText

/-! ## Turns that are taken -/

/-- The turns of the server that a conversation has taken. -/
def Wire.taken (wire after : Wire) : List ScriptedTurn :=
  wire.turns.take (wire.turns.length - after.turns.length)

theorem Wire.taken_eq {wire after : Wire} {turns : List ScriptedTurn}
    (h : wire.turns = turns ++ after.turns) : wire.taken after = turns := by
  rw [taken, h, List.length_append, Nat.add_sub_cancel, List.take_left']
  rfl

namespace Json

/-- An object whose content, if there is any, is a text. -/
def IsMessage : Json → Prop
  | .obj members => ∀ content, lookup? "content".toList members = some content →
      ∃ text, content = .str text
  | _ => False

/-- An object whose message, if there is one, is a message. -/
def IsReply : Json → Prop
  | .obj members => ∀ message, lookup? "message".toList members = some message → message.IsMessage
  | _ => False

end Json

/-- A reply is what a content can be dug out of. -/
theorem Client.replyContent_eq_ok {data : Json} :
    (∃ content, replyContent data = .ok content) ↔ data.IsReply := by
  cases data with
  | obj members =>
    rw [replyContent, Json.IsReply]
    rcases lookup? "message".toList members with _ | message
    · exact ⟨fun _ _ h => (by cases h), fun _ => ⟨[], rfl⟩⟩
    rw [Option.getD_some]
    simp only [Option.some.injEq, forall_eq']
    cases message with
    | obj entries =>
      rw [Json.IsMessage]
      dsimp only
      rcases lookup? "content".toList entries with _ | content
      · exact ⟨fun _ _ h => (by cases h), fun _ => ⟨Text.trim [], rfl⟩⟩
      rw [Option.getD_some]
      simp only [Option.some.injEq, forall_eq']
      cases content <;> simp
    | _ => simp [Json.IsMessage]
  | _ => simp [replyContent, Json.IsReply]

namespace Client

variable {c : Client}

/-- The address that conversations are sent to. -/
def chatAddress (c : Client) : Text := c.baseUrl ++ "/api/chat"

/-- The server's answer is a JSON value that is no reply. -/
def Misshapen (c : Client) (t : ScriptedTurn) : Prop :=
  ∃ data, t.turn.result c.chatAddress = .ok data ∧ ¬data.IsReply

/-- The request failed or was refused, or its answer was no JSON, or it is a reply. -/
def Bears (c : Client) (t : ScriptedTurn) : Prop :=
  (∃ message, t.turn.result c.chatAddress = .error (.request message)) ∨
    ∃ data, t.turn.result c.chatAddress = .ok data ∧ data.IsReply

/-- What a client makes of the server's turn in a conversation. -/
def answer (c : Client) (turn : Turn) : Except ClientError Text :=
  match turn.result c.chatAddress with
  | .error (.request message) => .error (.connection ("Ollama API error: " ++ message))
  | .error (.system message) => .error (.system message)
  | .error (.value message) => .error (.value message)
  | .ok data => (replyContent data).mapError ClientError.misfit

theorem unreported_answer {t : ScriptedTurn} :
    (∃ e, c.answer t.turn = .error e ∧ Plan.isReported e = false) ↔ c.Misshapen t := by
  unfold answer Misshapen
  generalize t.turn.result c.chatAddress = result
  rcases result with (message | message | message) | data
  · simp [Plan.isReported]
  · simp [Plan.isReported]
  · simp [Plan.isReported]
  · simp only [Except.ok.injEq, exists_eq_left', ← replyContent_eq_ok]
    cases replyContent data <;> simp [Except.mapError, Plan.isReported]

theorem unexpected_answer {t : ScriptedTurn} :
    (∃ e, c.answer t.turn = .error e ∧ ∀ message, e ≠ .connection message) ↔ ¬c.Bears t := by
  unfold answer Bears
  generalize t.turn.result c.chatAddress = result
  rcases result with (message | message | message) | data
  · simp
  · simp
  · simp
  · simp only [Except.ok.injEq, exists_eq_left', ← replyContent_eq_ok]
    cases replyContent data <;> simp [Except.mapError]

end Client

/-! ## Conversations that are broken off -/

/-- A conversation ends in a failure of some kind exactly if one of the turns that it took is one of
those that break it off. -/
def Talk.Breaks {α : Type} (talk : Talk α) (kind : ClientError → Prop) (bad : ScriptedTurn → Prop) :
    Prop :=
  ∀ wire, ∃ taken, wire.turns = taken ++ (talk wire).2.turns ∧
    ((∃ e, (talk wire).1 = .error e ∧ kind e) ↔ ∃ t ∈ taken, bad t)

namespace Talk.Breaks

variable {α β : Type} {kind : ClientError → Prop} {bad : ScriptedTurn → Prop}

theorem pure (a : α) : Breaks (Pure.pure a : Talk α) kind bad := by
  refine fun wire => ⟨[], rfl, ?_⟩
  have hok : ((Pure.pure a : Talk α) wire).1 = .ok a := rfl
  simp [hok]

/-- What stands behind a failure is not reached. -/
theorem throw_bind {e : ClientError} (h : ¬kind e) (next : α → Talk β) :
    Breaks (MonadExcept.throw e >>= next) kind bad := by
  refine fun _ => ⟨[], rfl, ?_⟩
  simp only [List.not_mem_nil, false_and, exists_false, iff_false]
  rintro ⟨e', he', hkind⟩
  cases he'
  exact h hkind

theorem bind {talk : Talk α} {next : α → Talk β} (h : Breaks talk kind bad)
    (hnext : ∀ a, Breaks (next a) kind bad) : Breaks (talk >>= next) kind bad := by
  intro wire
  obtain ⟨taken, hturns, hbreaks⟩ := h wire
  rw [bind_run]
  rcases htalk : talk wire with ⟨e | a, between⟩
  · rw [htalk] at hturns hbreaks
    refine ⟨taken, hturns, ?_⟩
    rw [← hbreaks]
    simp
  · rw [htalk] at hturns hbreaks
    obtain ⟨taken', hturns', hbreaks'⟩ := hnext a between
    refine ⟨taken ++ taken', ?_, ?_⟩
    · rw [List.append_assoc, ← hturns']
      exact hturns
    · have hfirst : ¬∃ t ∈ taken, bad t := fun hbad => by
        obtain ⟨e, he, -⟩ := hbreaks.mpr hbad
        cases he
      rw [hbreaks']
      simp only [List.mem_append]
      constructor
      · rintro ⟨t, ht, hbad⟩
        exact ⟨t, .inr ht, hbad⟩
      · rintro ⟨t, ht | ht, hbad⟩
        · exact absurd ⟨t, ht, hbad⟩ hfirst
        · exact ⟨t, ht, hbad⟩

end Talk.Breaks

namespace Client

section Breaks

variable (c : Client) {kind : ClientError → Prop} {bad : ScriptedTurn → Prop}
  (hconnection : ∀ message, ¬kind (.connection message))
  (hbad : ∀ t, (∃ e, c.answer t.turn = .error e ∧ kind e) ↔ bad t)

include hconnection hbad

/-- One request takes one turn. A server that has none left is silent, and that is no failure of the
kind. -/
theorem breaks_chat (messages : List Json) (timeout : Int) (extra : List (Text × Json)) :
    (c.chat messages timeout extra).Breaks kind bad := by
  intro wire
  rcases wire with ⟨_ | ⟨t, rest⟩, log, cancelled⟩
  · refine ⟨[], rfl, ?_⟩
    simp only [List.not_mem_nil, false_and, exists_false, iff_false]
    rintro ⟨e, he, hkind⟩
    cases he
    exact hconnection _ hkind
  · refine ⟨[t], rfl, ?_⟩
    simp only [List.mem_singleton, exists_eq_left, ← hbad]
    rfl

theorem breaks_secondAttempt (conversation : List Json) (reply : Text) :
    (c.secondAttempt conversation reply).Breaks kind bad := by
  intro wire
  unfold secondAttempt
  dsimp only
  obtain ⟨taken, hturns, hbreaks⟩ := c.breaks_chat hconnection hbad
    (conversation ++ [message "assistant" reply,
      message "user" (Prompt.secondPass c.targetLanguage reply)]) 120 singleOptions wire
  generalize c.chat _ 120 singleOptions wire = outcome at hturns hbreaks ⊢
  obtain ⟨result, after⟩ := outcome
  refine ⟨taken, ?_, ?_⟩
  · rcases result with (_ | _ | _ | _) | second <;> exact hturns
  · rw [← hbreaks]
    rcases result with (message | _ | _ | _) | second
    · simp [hconnection]
    · exact .rfl
    · exact .rfl
    · exact .rfl
    · simp

theorem breaks_translate (text context : Text) :
    (c.translate text context).Breaks kind bad := by
  unfold translate
  split
  · exact .pure []
  · refine .bind (c.breaks_chat hconnection hbad _ _ _) fun content => ?_
    dsimp only
    split
    · exact .throw_bind (hconnection _) _
    · split
      · exact .bind (c.breaks_secondAttempt hconnection hbad _ _) fun _ => .pure _
      · exact .pure _

theorem breaks_translateBatch (hvalue : ∀ message, ¬kind (.value message))
    (entries : List BatchEntry) : (c.translateBatch entries).Breaks kind bad := by
  unfold translateBatch
  split
  · exact .pure []
  · refine .bind (c.breaks_chat hconnection hbad _ _ _) fun content => ?_
    dsimp only
    split
    · exact .throw_bind (hconnection _) _
    · split
      · rw [← bind_pure (throw _)]
        exact .throw_bind (hvalue _) _
      · exact .pure _

end Breaks

/-! ## Target texts are not empty -/

end Client

namespace Markup

/-- No placeholder stands for nothing. -/
theorem ne_nil_of_mem_protect {s mark raw : Text} (h : (mark, raw) ∈ (protect s).2) : raw ≠ [] :=
  ne_nil_of_token_mem (token_of_mem_protectPieces h)

theorem restore_ne_nil {s : Text} (hs : s ≠ []) {marks : Placeholders}
    (hmarks : ∀ mark raw, (mark, raw) ∈ marks → raw ≠ []) : restore s marks ≠ [] := by
  refine List.foldlRecOn (motive := (· ≠ [])) marks _ hs ?_
  rintro s hs ⟨mark, raw⟩ hmem
  exact Text.replaceAll_ne_nil (hmarks mark raw hmem) hs

end Markup

namespace Client

theorem secondAttempt_ne_nil {c : Client} {conversation : List Json} {reply : Text}
    (hreply : reply ≠ []) :
    (c.secondAttempt conversation reply).Yields (· ≠ []) where
  keeps := (c.yields_secondAttempt conversation reply).keeps
  result {wire after second} h := by
    unfold secondAttempt at h
    dsimp only at h
    generalize c.chat _ 120 singleOptions wire = outcome at h
    obtain ⟨(message | _ | _ | _) | content, between⟩ := outcome
    · cases h
      exact hreply
    · cases h
    · cases h
    · cases h
    · cases h
      show (if (Reply.clean content).isEmpty then reply else Reply.clean content) ≠ []
      split
      · exact hreply
      next hsecond => exact fun heq => hsecond (List.isEmpty_iff.mpr heq)

/-- A text that is not blank has no empty target text. -/
theorem yields_translate_ne_nil (c : Client) {text : Text} (htext : text.allBlank = false)
    (context : Text) : (c.translate text context).Yields (· ≠ []) := by
  unfold translate
  rw [if_neg (by simp [htext])]
  refine .bind (c.yields_chat ..) fun content _ => ?_
  dsimp only
  split
  · exact .bind (.throw _ : Talk.Yields _ fun _ => False) fun _ h => h.elim
  next hreply =>
    have hne : Reply.clean content ≠ [] := fun heq => hreply (List.isEmpty_iff.mpr heq)
    have hrestored {reply : Text} (h : reply ≠ []) :
        Markup.restore reply (Markup.protect text).2 ≠ [] :=
      Markup.restore_ne_nil h fun _ _ => Markup.ne_nil_of_mem_protect
    split
    · exact .bind (secondAttempt_ne_nil hne) fun _ h => .pure (hrestored h)
    · exact .pure (hrestored hne)

end Client

/-! ## The run of a worker -/

namespace Rehearsal

variable {c : Client} {plan : Plan} {r after : Recording Signal} {outcome : Except Breakdown Unit}

/-- How a worker carried a plan out: it came to the end and said what the plan says, or it met a
misshapen answer and broke off. -/
structure Watched (c : Client) (plan : Plan) (r : Recording Signal)
    (outcome : Except Breakdown Unit) (after : Recording Signal) : Prop where
  keeps : r.isCancelled = true → after.isCancelled = true
  ends : ∃ taken, r.wire.turns = taken ++ after.wire.turns ∧
    ((outcome = .ok () ∧ (¬∃ t ∈ taken, c.Misshapen t) ∧
        ∃ said, after.records = r.records ++ said ∧ plan.Says after.isCancelled said) ∨
      ((∃ e, outcome = .error e) ∧ ∃ t ∈ taken, c.Misshapen t))

/-- A step before the rest of the plan. -/
theorem Watched.step {plan' : Plan} {r' : Recording Signal} {taken : List ScriptedTurn}
    {said : List Signal} (h : Watched c plan' r' outcome after)
    (hkeeps : r.isCancelled = true → r'.isCancelled = true)
    (hturns : r.wire.turns = taken ++ r'.wire.turns) (hgood : ¬∃ t ∈ taken, c.Misshapen t)
    (hrecords : r'.records = r.records ++ said)
    (hplan : ∀ rest, plan'.Says after.isCancelled rest →
      plan.Says after.isCancelled (said ++ rest)) : Watched c plan r outcome after where
  keeps hcancelled := h.keeps (hkeeps hcancelled)
  ends := by
    obtain ⟨taken', hturns', hends⟩ := h.ends
    refine ⟨taken ++ taken', by rw [hturns, hturns', List.append_assoc], ?_⟩
    rcases hends with ⟨hok, hgood', rest, hrest, hsaid⟩ | ⟨herror, t, ht, hbad⟩
    · refine .inl ⟨hok, ?_, said ++ rest, ?_, hplan rest hsaid⟩
      · rintro ⟨t, ht, hbad⟩
        rcases List.mem_append.mp ht with ht | ht
        · exact hgood ⟨t, ht, hbad⟩
        · exact hgood' ⟨t, ht, hbad⟩
      · rw [hrest, hrecords, List.append_assoc]
    · exact .inr ⟨herror, t, List.mem_append_right _ ht, hbad⟩

/-- A call is answered and the plan goes on, or its failure is no report and the worker breaks
off. -/
theorem Watched.of_call {α : Type} {talk : Talk α} {P : α → Prop} (hyields : talk.Yields P)
    (hbreaks : talk.Breaks (Plan.isReported · = false) c.Misshapen)
    {next : Except ClientError α → Plan}
    (hstrict : ∀ e, Plan.isReported e = false → next (.error e) = .breakDown (.client e))
    (hrun : (next (talk r.wire).1).run (watching c) { r with wire := (talk r.wire).2 } =
      (outcome, after))
    (hnext : (∀ e, (talk r.wire).1 = .error e → Plan.isReported e = true) →
      Watched c (next (talk r.wire).1) { r with wire := (talk r.wire).2 } outcome after ∧
        ∀ said, (next (talk r.wire).1).Says after.isCancelled said →
          plan.Says after.isCancelled said) : Watched c plan r outcome after := by
  obtain ⟨taken, hturns, hbroken⟩ := hbreaks r.wire
  have hkeeps : r.isCancelled = true →
      ({ r with wire := (talk r.wire).2 } : Recording Signal).isCancelled = true := by
    simp only [Recording.isCancelled, Bool.or_eq_true]
    exact Or.imp_right (hyields.keeps rfl)
  by_cases hbad : ∃ t ∈ taken, c.Misshapen t
  · obtain ⟨e, he, hunreported⟩ := hbroken.mpr hbad
    rw [he, hstrict e hunreported] at hrun
    obtain ⟨rfl, rfl⟩ := Prod.mk.inj hrun
    exact ⟨hkeeps, taken, hturns, .inr ⟨⟨_, rfl⟩, hbad⟩⟩
  · have hreported : ∀ e, (talk r.wire).1 = .error e → Plan.isReported e = true := by
      intro e he
      rw [← Bool.not_eq_false]
      exact fun hunreported => hbad (hbroken.mp ⟨e, he, hunreported⟩)
    obtain ⟨hwatched, hplan⟩ := hnext hreported
    exact hwatched.step hkeeps hturns hbad (List.append_nil _).symm hplan

/-- Every plan whose calls can be answered is carried out to its end or up to a misshapen answer. -/
theorem watched {n : Nat} (hn : plan.Within n) (hstrict : plan.Strict)
    (hrun : plan.run (watching c) r = (outcome, after)) : Watched c plan r outcome after := by
  have hunreported (t : ScriptedTurn) := c.unreported_answer (t := t)
  induction plan generalizing n r with
  | stop =>
    cases hrun
    exact ⟨id, [], rfl, .inl ⟨rfl, by simp, [], (List.append_nil _).symm, rfl⟩⟩
  | breakDown => exact hn.elim
  | report signal next ih =>
    obtain ⟨m, -, hm⟩ := hn
    refine (ih hm hstrict hrun).step ?_ (List.nil_append _).symm (by simp) rfl
      fun rest hrest => ⟨rest, rfl, hrest⟩
    simp only [Recording.isCancelled, Recording.add, Bool.or_eq_true]
    exact Or.imp_left .inl
  | ifCancelled yes no ihyes ihno =>
    obtain ⟨m, -, hyes, hno⟩ := hn
    rw [Plan.run] at hrun
    split at hrun
    next hcancelled =>
      have hwatched := ihyes hyes hstrict.1 hrun
      exact hwatched.step id (List.nil_append _).symm (by simp) (List.append_nil _).symm
        fun rest hrest => .inl ⟨hwatched.keeps hcancelled, hrest⟩
    next =>
      exact (ihno hno hstrict.2 hrun).step id (List.nil_append _).symm (by simp)
        (List.append_nil _).symm fun rest hrest => .inr hrest
  | translate job next ih =>
    obtain ⟨m, -, hm⟩ := hn
    refine .of_call (c.yields_translate job.text job.context)
      (c.breaks_translate (by simp [Plan.isReported]) hunreported _ _) hstrict.1 hrun
      fun hreported => ?_
    have hanswer : Plan.Answer (c.translate job.text job.context r.wire).1 := by
      cases h : (c.translate job.text job.context r.wire).1 with
      | ok target => trivial
      | error e => exact hreported e h
    exact ⟨ih _ (hm _ hanswer) (hstrict.2 _) hrun, fun said hsaid => ⟨_, hanswer, hsaid⟩⟩
  | translateBatch entries next ih =>
    obtain ⟨m, -, hm⟩ := hn
    have hyields := c.yields_translateBatch entries
    refine .of_call hyields (c.breaks_translateBatch (by simp [Plan.isReported]) hunreported
      (by simp [Plan.isReported]) _) hstrict.1 hrun fun hreported => ?_
    have hanswer : Plan.BatchAnswer (c.translateBatch entries r.wire).1 := by
      cases h : (c.translateBatch entries r.wire).1 with
      | ok results => exact hyields.result (Prod.ext h rfl)
      | error e => exact hreported e h
    exact ⟨ih _ (hm _ hanswer) (hstrict.2 _) hrun, fun said hsaid => ⟨_, hanswer, hsaid⟩⟩

end Rehearsal

namespace Client

/-! ## What comes of a server's answers -/

/-- A text came to a target text that is not empty, or to a failure to connect. -/
def Settled (outcome : Except ClientError Text) : Prop :=
  (∃ target, outcome = .ok target ∧ target ≠ []) ∨
    ∃ message, outcome = .error (.connection message)

/-- **A server's answers come to something** exactly if none that was taken is misshapen. A text
that is not blank comes to a target text or to a failure to connect if and only if each turn that
was taken for it failed as a request, was no JSON, or is a reply. And a worker comes to its end if
and only if none of the turns it took is misshapen; then its reports account for its jobs and end
with the end. -/
theorem reported_iff_no_misshapen (c : Client) (wire : Wire) :
    (∀ text context, text.allBlank = false →
      (Settled (c.translate text context wire).1 ↔
        ∀ t ∈ wire.taken (c.translate text context wire).2, c.Bears t)) ∧
    ∀ cancelAt batchSize jobs,
      let (outcome, after) := Rehearsal.worker c wire cancelAt
        (if 1 < batchSize then .ofBatches batchSize jobs else .ofJobs jobs)
      (outcome = .ok () ↔ ∀ t ∈ wire.taken after.wire, ¬c.Misshapen t) ∧
        (outcome = .ok () → Completes after.isCancelled jobs after.records) := by
  refine ⟨fun text context htext => ?_, fun cancelAt batchSize jobs => ?_⟩
  · have htranslate : (c.translate text context).Breaks
        (fun e => ∀ message, e ≠ .connection message) (¬c.Bears ·) :=
      c.breaks_translate (by simp) (fun _ => c.unexpected_answer) text context
    obtain ⟨taken, hturns, hbreaks⟩ := htranslate wire
    rw [Wire.taken_eq hturns]
    have hsettled : Settled (c.translate text context wire).1 ↔ ¬∃ e,
        (c.translate text context wire).1 = .error e ∧ ∀ message, e ≠ .connection message := by
      cases h : (c.translate text context wire).1 with
      | ok target =>
        have hne : target ≠ [] := (c.yields_translate_ne_nil htext context).result (Prod.ext h rfl)
        simp [Settled, hne]
      | error e => simp [Settled]
    rw [hsettled, hbreaks]
    simp
  · dsimp only
    rcases hrun : Rehearsal.worker c wire cancelAt _ with ⟨outcome, after⟩
    obtain ⟨-, taken, hturns, hends⟩ := Rehearsal.watched (Plan.within_plan batchSize jobs)
      (Plan.strict_plan batchSize jobs) hrun
    rw [Wire.taken_eq hturns]
    rcases hends with ⟨rfl, hgood, said, hsaid, hplan⟩ | ⟨⟨e, rfl⟩, t, ht, hbad⟩
    · refine ⟨⟨fun _ t ht hbad => hgood ⟨t, ht, hbad⟩, fun _ => rfl⟩, fun _ => ?_⟩
      obtain rfl : after.records = said := hsaid
      exact Plan.completes_plan _ batchSize jobs hplan
    · exact ⟨⟨nofun, fun hgood => absurd hbad (hgood t ht)⟩, nofun⟩

/-- A server that answers once. -/
def answering (body : String) : Wire := { turns := [{ turn := .answer 200 "OK" body }] }

/-- A reply ends in its target text. -/
theorem greeting_settled :
    let wire := answering "\x7b\"message\": \x7b\"content\": \"Salut\"\x7d\x7d"
    Text.allBlank "Hello" = false ∧ (translate {} "Hello" [] wire).1 = .ok "Salut".toList ∧
      Settled (translate {} "Hello" [] wire).1 := by
  intro wire
  have htext : Text.allBlank "Hello" = false := by decide
  have hreply : (translate {} "Hello" [] wire).1 = .ok "Salut".toList := by decide +kernel
  refine ⟨htext, hreply, ((reported_iff_no_misshapen {} wire).1 "Hello" [] htext).mpr ?_⟩
  have htaken : wire.taken (translate {} "Hello" [] wire).2 = wire.turns := by decide +kernel
  have hanswer : ∀ t ∈ wire.turns, answer {} t.turn = .ok "Salut".toList := by decide +kernel
  rw [htaken]
  intro t ht
  by_contra hbears
  obtain ⟨e, he, -⟩ := unexpected_answer.mpr hbears
  cases (hanswer t ht).symm.trans he

/-- A list is no reply: its text comes to neither a target text nor a failure to connect, and the
worker reports neither a result nor its end. -/
theorem list_unreported :
    let wire := answering "[]"
    let worker := Rehearsal.worker {} wire none (.ofJobs [⟨0, 0, "Hello", []⟩])
    Text.allBlank "Hello" = false ∧ ¬Settled (translate {} "Hello" [] wire).1 ∧
      worker.1 ≠ .ok () ∧ worker.2.records = [.processed "Hello"] := by
  intro wire worker
  have hfailure : (translate {} "Hello" [] wire).1 = .error (.misfit .noSuchPart) := by
    decide +kernel
  refine ⟨by decide, ?_, by decide +kernel, by decide +kernel⟩
  rw [hfailure]
  simp [Settled]

end Client

end GameText
