import GameText.Error
import GameText.Markup.Placeholder
import GameText.Localization.Prompt
import GameText.Localization.Reply

/-!
# The client of a translating server

The client asks a server to translate texts. Each request gets the server's next turn; what was
asked is kept in a log. A conversation with the server is a function of the turns still to come, so
all that the client does is fixed by them.
-/

namespace GameText

/-- A request to the server. Only a request that posts has a payload. -/
structure Request where
  url : Text
  timeout : Int
  payload : Option Json

/-- The content of the last message that a request posts. -/
def Request.prompt (request : Request) : Text :=
  let content := request.payload.bind fun payload =>
    payload.at? [.key "messages", .index (-1), .key "content"]
  (content.bind Json.text?).getD []

/-- What a server does with a request. -/
inductive Turn where
  /-- It answers with a status and a body. -/
  | answer (status : Int) (reason body : Text)
  /-- The request itself fails. -/
  | requestFailure (message : Text)
  /-- The system fails below the request. -/
  | systemFailure (message : Text)
  /-- A value is refused below the request. -/
  | valueFailure (message : Text)
deriving DecidableEq, Repr

/-- A turn of the server, during which the run that waits for it may be cancelled. -/
structure ScriptedTurn where
  turn : Turn
  cancels : Bool := false
deriving DecidableEq, Repr

/-- The connection to the server: its turns still to come, and the requests so far. -/
structure Wire where
  turns : List ScriptedTurn
  log : List Request := []
  /-- A turn since the flag was last cleared has cancelled the run. -/
  cancelled : Bool := false

/-- Why the client has no answer. -/
inductive ClientError where
  /-- No usable reply came back. -/
  | connection (message : Text)
  /-- The system fails below the request. -/
  | system (message : Text)
  /-- A value is refused. -/
  | value (message : Text)
  /-- The reply has a value of an unexpected kind. -/
  | misfit (cause : Misfit)
deriving DecidableEq, Repr

/-- The words for a failure. -/
def ClientError.message : ClientError → Text
  | .connection message => message
  | .system message => message
  | .value message => message
  | .misfit _ => []

/-- A conversation over a connection. -/
abbrev Talk (α : Type) := ExceptT ClientError (StateM Wire) α

/-- Why a request has no JSON value for an answer. -/
inductive RequestError where
  /-- The request failed, was refused, or its answer is no JSON. -/
  | request (message : Text)
  | system (message : Text)
  | value (message : Text)
deriving DecidableEq, Repr

namespace Turn

/-- The words for a status that counts as failure. -/
def refusal? (status : Int) (reason url : Text) : Option Text :=
  let kind? : Option Text :=
    if 400 ≤ status ∧ status < 500 then some " Client Error: "
    else if 500 ≤ status ∧ status < 600 then some " Server Error: "
    else none
  kind?.map fun kind => Text.ofInt status ++ kind ++ reason ++ " for url: " ++ url

/-- The value that a turn gives for a request to an address. -/
def result (url : Text) : Turn → Except RequestError Json
  | .requestFailure message => .error (.request message)
  | .systemFailure message => .error (.system message)
  | .valueFailure message => .error (.value message)
  | .answer status reason body =>
    match refusal? status reason url with
    | some message => .error (.request message)
    | none => (Json.read body).mapError fun refusal =>
      if refusal.problem.hasPlace then .request (refusal.message body)
      else .value (refusal.message body)

end Turn

/-- The turn of a server that has none left. -/
def silence : ScriptedTurn := { turn := .requestFailure "no reply scripted" }

/-- Makes a request: it is logged, and the server takes its next turn. -/
def Wire.exchange (wire : Wire) (request : Request) : Except RequestError Json × Wire :=
  let (scripted, turns) := match wire.turns with
    | t :: rest => (t, rest)
    | [] => (silence, [])
  (scripted.turn.result request.url,
    { turns, log := wire.log ++ [request], cancelled := wire.cancelled || scripted.cancels })

/-- A client: the server's address, the model and the languages. -/
structure Client where
  baseUrl : Text := "http://localhost:11434"
  model : Text := "qwen3:14b"
  sourceLanguage : Text := "Japanese"
  targetLanguage : Text := "English"
deriving DecidableEq, Repr

namespace Client

/-- An address without slashes at its end. -/
def trimSlashes (url : Text) : Text := (url.reverse.dropWhile (· == '/')).reverse

/-- The client's instructions. -/
def systemPrompt (c : Client) : Text := Prompt.system c.sourceLanguage c.targetLanguage

/-! ## Requests -/

/-- The content of a reply to a conversation. -/
def replyContent (data : Json) : Except Misfit Text :=
  match data with
  | .obj members =>
    match (lookup? "message".toList members).getD (.obj []) with
    | .obj message =>
      match (lookup? "content".toList message).getD (.str []) with
      | .str content => .ok content.trim
      | _ => .error .noSuchPart
    | _ => .error .noSuchPart
  | _ => .error .noSuchPart

/-- A message of a conversation. -/
def message (role : String) (content : Text) : Json :=
  .obj [("role".toList, .str role), ("content".toList, .str content)]

/-- The payload of a conversation, with further fields at its end. -/
def payload (c : Client) (messages : List Json) (extra : List (Text × Json)) : Json :=
  .obj <| [("model".toList, Json.str c.model), ("messages".toList, .arr messages),
    ("stream".toList, .bool false), ("think".toList, .bool false)] ++ extra

/-- Sends a conversation and gives the content of the reply. -/
def chat (c : Client) (messages : List Json) (timeout : Int) (extra : List (Text × Json)) :
    Talk Text := fun wire =>
  let request : Request :=
    { url := c.baseUrl ++ "/api/chat", timeout, payload := some (c.payload messages extra) }
  let (result, wire) := wire.exchange request
  let answer := match result with
    | .error (.request message) => .error (.connection ("Ollama API error: " ++ message))
    | .error (.system message) => .error (.system message)
    | .error (.value message) => .error (.value message)
    | .ok data => (replyContent data).mapError ClientError.misfit
  (answer, wire)

/-- Asks for the server's models. -/
def tags (c : Client) (timeout : Int) (wire : Wire) : Except RequestError Json × Wire :=
  wire.exchange { url := c.baseUrl ++ "/api/tags", timeout, payload := none }

/-- The server can be reached. -/
def isAvailable (c : Client) (wire : Wire) : Bool × Wire :=
  let (result, wire) := c.tags 5 wire
  (result matches .ok _, wire)

/-- The name of a model; the outer answer is missing where there is no such key. -/
def modelName (model : Json) : Except Misfit (Option Json) :=
  match model with
  | .obj members => .ok (lookup? "name".toList members)
  | _ => .error .wrongKind

/-- The names of models up to one that has none. -/
def modelNames : List Json → Except Misfit (Option (List Json))
  | [] => .ok (some [])
  | model :: rest => do
    match ← modelName model with
    | none => return none
    | some name => return (← modelNames rest).map (name :: ·)

/-- The names of the models in a value; a model without a name leaves none at all. -/
def namesIn (data : Json) : Except Misfit (List Json) :=
  match data with
  | .obj members =>
    let models : Except Misfit (List Json) :=
      match (lookup? "models".toList members).getD (.arr []) with
      | .arr items => .ok items
      | .str s => .ok (s.map fun c => .str [c])
      | .obj entries => .ok (entries.map fun (k, _) => .str k)
      | _ => .error .wrongKind
    models.bind fun models => (modelNames models).map (·.getD [])
  | _ => .error .noSuchPart

/-- The names of the server's models, or none if it cannot be reached. -/
def listModels (c : Client) (wire : Wire) : Except Misfit (List Json) × Wire :=
  let (result, wire) := c.tags 10 wire
  match result with
  | .error _ => (.ok [], wire)
  | .ok data => (namesIn data, wire)

/-! ## One text -/

/-- A reply to a text in Japanese still holds Japanese, placeholders aside. -/
def leftUntranslated (c : Client) (reply : Text) : Bool :=
  c.sourceLanguage == "Japanese".toList && c.targetLanguage != "Japanese".toList &&
    (reply.without Markup.placeholder?).any isJapanese

/-- The options of a request for one text. -/
def singleOptions : List (Text × Json) :=
  [("options".toList, .obj <| [("temperature", .int 0), ("seed", .int 42),
    ("num_predict", .int 1024), ("num_ctx", .int 4096)].map fun (k, v) => (k.toList, v))]

/-- The second attempt at a reply that still holds Japanese; the first reply stays if the server
cannot be reached or has nothing to say. -/
def secondAttempt (c : Client) (conversation : List Json) (reply : Text) : Talk Text := fun wire =>
  let more := conversation ++
    [message "assistant" reply, message "user" (Prompt.secondPass c.targetLanguage reply)]
  let (result, wire) := c.chat more 120 singleOptions wire
  match result with
  | .ok second =>
    let second := Reply.clean second
    (.ok (if second.isEmpty then reply else second), wire)
  | .error (.connection _) => (.ok reply, wire)
  | .error e => (.error e, wire)

/-- Translates one text. A blank text has the empty target text, and no request is made for it. -/
def translate (c : Client) (text context : Text) : Talk Text :=
  if text.allBlank then pure []
  else do
    let (protectedText, marks) := Markup.protect text
    let conversation :=
      [message "system" c.systemPrompt,
       message "user" (Prompt.request (Prompt.single protectedText) context (!marks.isEmpty))]
    let reply := Reply.clean (← c.chat conversation 120 singleOptions)
    if reply.isEmpty then throw (.connection "Ollama returned empty translation")
    let reply ← if c.leftUntranslated reply then c.secondAttempt conversation reply else pure reply
    return Markup.restore reply marks

/-! ## Several texts at once -/

/-- A text of a batch: its key, the text and its context. -/
structure BatchEntry where
  key : Text
  text : Text
  context : Text
deriving DecidableEq, Repr

/-- The options of a request for a number of texts. -/
def batchOptions (size : Nat) : List (Text × Json) :=
  [("format".toList, .str "json"), ("options".toList, .obj <| [("temperature", .int 0),
    ("seed", .int 42), ("num_predict", .nat (min (1024 * size) 8192)),
    ("num_ctx", .nat (max 4096 (2048 * size)))].map fun (k, v) => (k.toList, v))]

/-- The protected texts of a batch by their keys, with their placeholders. -/
def protectAll (entries : List BatchEntry) : List (Text × Text × Markup.Placeholders) :=
  entries.foldl (fun done e => assign e.key (Markup.protect e.text) done) []

/-- The object of protected texts that a batch request holds. -/
def batchObject (texts : List (Text × Text × Markup.Placeholders)) : Json :=
  .obj (texts.map fun (key, text, _) => (key, .str text))

/-- Translates several texts in one request; texts that the reply leaves out are missing. Only the
first context is sent. -/
def translateBatch (c : Client) (entries : List BatchEntry) : Talk (List (Text × Text)) :=
  match entries with
  | [] => pure []
  | first :: _ => do
    let texts := protectAll entries
    let hasCodes := texts.any fun (_, _, marks) => !marks.isEmpty
    let messages :=
      [message "system" (c.systemPrompt ++ '\n' :: '\n' :: Prompt.batchRules),
       message "user"
        (Prompt.request (Prompt.batch (batchObject texts).indented) first.context hasCodes)]
    let content ← c.chat messages (120 + 30 * entries.length) (batchOptions entries.length)
    let raw := (content.without Reply.thinking?).trim
    if raw.isEmpty then throw (.connection "Ollama returned empty response for batch")
    match Reply.parseBatch raw (entries.map (·.key)) with
    | .error problem => throw (.value problem.message)
    | .ok found =>
      return found.map fun (key, text) =>
        (key, Markup.restore (Reply.clean text) (((lookup? key texts).map (·.2)).getD []))

end Client

end GameText
