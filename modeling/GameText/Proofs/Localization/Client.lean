import GameText.Localization.Client
import GameText.Proofs.Json.Entries
import GameText.Proofs.Outcomes

/-!
# What a client keeps to

Whatever the server does, a conversation does not lose a request to stop that came before, and the
result of a batch has each key once, as the texts of a reply are set under their keys
(`yields_translateBatch`). Both are stated of any conversation (`Talk.Yields`) and pass from its
parts to the whole.
-/

namespace GameText

namespace Talk

variable {α β : Type}

/-- What holds of a conversation whatever the server does: a request to stop that came before is not
lost, and a result has a property. -/
structure Yields (talk : Talk α) (P : α → Prop) : Prop where
  keeps : ∀ {wire after : Wire} {result : Except ClientError α}, talk wire = (result, after) →
    wire.cancelled = true → after.cancelled = true
  result : ∀ {wire after : Wire} {a : α}, talk wire = (.ok a, after) → P a

namespace Yields

variable {P : α → Prop} {Q : β → Prop}

theorem pure {a : α} (h : P a) : Yields (Pure.pure a : Talk α) P where
  keeps htalk hwire := by cases htalk; exact hwire
  result htalk := by cases htalk; exact h

theorem throw (e : ClientError) : Yields (MonadExcept.throw e : Talk α) P where
  keeps htalk hwire := by cases htalk; exact hwire
  result htalk := by cases htalk

theorem bind {talk : Talk α} {next : α → Talk β} (h : Yields talk P)
    (hnext : ∀ a, P a → Yields (next a) Q) : Yields (talk >>= next) Q := by
  constructor
  · intro wire after result hbind hwire
    rw [bind_run] at hbind
    rcases htalk : talk wire with ⟨e | a, between⟩
    · rw [htalk] at hbind
      cases hbind
      exact h.keeps htalk hwire
    · rw [htalk] at hbind
      exact (hnext a (h.result htalk)).keeps hbind (h.keeps htalk hwire)
  · intro wire after b hbind
    rw [bind_run] at hbind
    rcases htalk : talk wire with ⟨e | a, between⟩
    · rw [htalk] at hbind
      cases hbind
    · rw [htalk] at hbind
      exact (hnext a (h.result htalk)).result hbind

end Yields

end Talk

namespace Reply

/-- The texts of a batch reply have each key once. -/
theorem nodup_parseBatch {raw : Text} {keys : List Text} {found : List (Text × Text)}
    (h : parseBatch raw keys = .ok found) : (found.map Prod.fst).Nodup := by
  unfold parseBatch at h
  split at h
  · cases h
  next members _ =>
    dsimp only at h
    split at h
    · cases h
    · cases h
      refine List.foldlRecOn
        (motive := fun found : List (Text × Text) => (found.map Prod.fst).Nodup) keys _ .nil ?_
      intro soFar hsoFar key _
      cases textOf? members key with
      | none => exact hsoFar
      | some text => exact nodup_assign hsoFar
  · cases h

end Reply

namespace Client

theorem yields_chat (c : Client) (messages : List Json) (timeout : Int) (extra : List (Text × Json)) :
    (c.chat messages timeout extra).Yields fun _ => True where
  keeps htalk hwire := by
    cases htalk
    simp [hwire]
  result _ := trivial

theorem yields_secondAttempt (c : Client) (conversation : List Json) (reply : Text) :
    (c.secondAttempt conversation reply).Yields fun _ => True where
  keeps {wire after result} htalk hwire := by
    unfold secondAttempt at htalk
    dsimp only at htalk
    rcases hchat : c.chat _ 120 singleOptions wire with ⟨second, between⟩
    have hkeeps := (c.yields_chat _ _ _).keeps hchat hwire
    rw [hchat] at htalk
    dsimp only at htalk
    split at htalk <;> cases htalk <;> exact hkeeps
  result _ := trivial

theorem yields_translate (c : Client) (text context : Text) :
    (c.translate text context).Yields fun _ => True := by
  unfold translate
  split
  · exact .pure trivial
  · refine .bind (c.yields_chat ..) fun content _ => ?_
    dsimp only
    split
    · exact .bind (.throw _ : Talk.Yields _ fun _ => False) fun _ h => h.elim
    · split
      · exact .bind (c.yields_secondAttempt _ _) fun _ _ => .pure trivial
      · exact .pure trivial

theorem yields_translateBatch (c : Client) (entries : List BatchEntry) :
    (c.translateBatch entries).Yields fun results => (results.map Prod.fst).Nodup := by
  unfold translateBatch
  split
  · exact .pure .nil
  · refine .bind (c.yields_chat ..) fun content _ => ?_
    dsimp only
    split
    · exact .bind (.throw _ : Talk.Yields _ fun _ => False) fun _ h => h.elim
    · split
      · exact .throw _
      next found hfound =>
        refine .pure ?_
        have hnodup := Reply.nodup_parseBatch hfound
        rwa [List.map_map]

end Client

end GameText
