import PageAudit.Rule.Name

/-!
# Wording of buttons and links

What a name says. Buttons and links without a name are left to the rules on names; they keep their
numbers.
-/

namespace PageAudit.Rule

def lowInformationPhrases : List String := ["click", "here", "more", "link", "button"]

def vaguePhrases : List String := ["click here", "here", "more", "read more", "link", "continue"]

/-- A test of the names that are one of the `phrases`; `summary` quotes the name. -/
def wordedAs (name? : Element → Option String) (phrases : List String) (summary : String → String) :
    Test :=
  fun _ e => (name? e).bind fun name => if Text.isOneOf phrases name then some (summary name) else none

/-- Each named link with its destination, in document order. -/
def destinations (p : Page) : List (String × String) :=
  (links p).filterMap fun e => (linkName? e).map fun name => (name, (e.attr? "href").getD "")

/-- A test of the links whose destination is not that of the first link with their name. -/
def leadsElsewhere (known : List (String × String)) : Test := fun _ e => do
  let name ← linkName? e
  let (_, first) ← known.find? (·.1 == name)
  if first == (e.attr? "href").getD "" then none
  else some ("Link text \"" ++ name ++ "\" is also used for a link to \"" ++ first ++ "\"")

def buttonTextQuality : Rule where
  id := "button-text-quality"
  impact := .moderate
  description := "Ensures button text describes the action it performs"
  help := "Button text should be descriptive"
  tags := ["cat.name-role-value", "best-practice"]
  check p := .ofScan ((buttons p).filter fun e => (buttonName? e).isSome) <|
    findingsIn .nth (wordedAs buttonName? lowInformationPhrases fun name =>
      "Button text \"" ++ name ++ "\" does not describe the action") (buttons p)

def linkTextQuality : Rule where
  id := "link-text-quality"
  impact := .moderate
  description := "Ensures link text describes the link destination"
  help := "Link text should be descriptive"
  tags := ["cat.name-role-value", "wcag2a", "wcag244"]
  check p := .ofScan ((links p).filter fun e => (linkName? e).isSome) <|
    findingsIn .nth (wordedAs linkName? vaguePhrases fun name =>
      "Link text \"" ++ name ++ "\" does not describe where the link goes") (links p)

def linkSameTextDiffTarget : Rule where
  id := "link-same-text-diff-target"
  impact := .minor
  description := "Ensures links with the same accessible text point to the same destination"
  help := "Links with the same text should have the same purpose"
  tags := ["cat.semantics", "best-practice"]
  check p := .ofScan ((links p).filter fun e => (linkName? e).isSome) <|
    findingsIn .nth (leadsElsewhere (destinations p)) (links p)

end PageAudit.Rule
