import GameText.Text.Basic

/-!
# Prompts

The texts that tell a language model what to do.
-/

namespace GameText

namespace Prompt

/-- The instructions for a pair of languages. -/
def system (source target : Text) : Text :=
  "You are a professional " ++ source ++ " to " ++ target ++
    " translator specializing in video game and visual novel scripts.\n\nRules:\n" ++
    "- Translate the text faithfully and completely into natural " ++ target ++
    " suitable for a game.\n" ++
    ("- The text may contain opaque code markers like «CODE1», «CODE2», etc. These are internal " ++
      "engine tags. Output them EXACTLY as-is, never remove, translate, rewrite, or replace " ++
      "them.\n- Keep the same line break structure as the original.\n" ++
      "- Output ONLY the translated text. No explanations, no translator notes, no commentary.\n" ++
      "- If the text is already in " : String) ++ target ++
    (" or is a proper noun, keep it as-is.\n- Keep the tone and register of the source line.\n" ++
      "- Preserve Japanese honorifics as-is: -san, -kun, -chan, -sama, -sensei, -senpai." : String)

/-- The rules for replies to several texts at once. -/
def batchRules : Text :=
  ("CRITICAL: You must respond with a valid JSON object. " ++
    "Use the exact same keys from the input. " ++
    "Do not add any text outside the JSON." : String)

/-- The notice that a text holds placeholders. -/
def codeNotice : Text :=
  ("IMPORTANT: The text contains code markers like «CODE1», «CODE2», etc. " ++
    "These are internal engine formatting tags. " ++
    "You MUST output them exactly as-is." : String)

/-- The line above the context. -/
def contextHeader : Text :=
  "Context (surrounding lines for reference, do NOT translate this):"

/-- A request with its context and its notice, where there are any. -/
def request (body context : Text) (hasCodes : Bool) : Text :=
  Text.join ['\n', '\n'] <|
    (if context.isEmpty then [] else [contextHeader ++ '\n' :: context]) ++
      (if hasCodes then [codeNotice] else []) ++ [body]

/-- The request for one text. -/
def single (protectedText : Text) : Text := "Translate this:\n" ++ protectedText

/-- The request for another attempt at a text that still holds the source language. -/
def secondPass (target reply : Text) : Text :=
  "Your translation still contains Japanese characters. Translate ALL of it to " ++ target ++
    ".\n\nFix this translation:\n" ++ reply

/-- The request for several texts, given as JSON. -/
def batch (object : Text) : Text :=
  (("Translate the following JSON. Each value is a separate line of text to translate.\n" ++
    "Respond with ONLY a JSON object using the EXACT same keys, " ++
    "where each value is the translated text:\n\n" : String) : Text) ++ object

end Prompt

end GameText
