import TradeCore.Lib.Template
import TradeCore.Notification.Delivery

/-!
# TradeCore.Notification.Template

Notifications from templates: `renderTemplate` and `sendFromTemplate`. A placeholder is a key of
letters, digits and underscores between double braces. A key is looked up as a property of the data;
one that is undefined leaves its placeholder.

* `renderTemplate_iff`: what is filled in is the placeholders of the template, from the left, and none
  in the values.
* `renderTemplate_twice`: filling in a template in two steps is filling it in with both data.
-/

namespace TradeCore
namespace NotificationDelivery

open Lib Lib.Template

def isWordChar (c : Char) : Bool := c.isAlphanum || c = '_'

def marks : Marks Char where
  word := isWordChar
  opening := '{'
  closing := '}'
  opening_word := by decide
  closing_word := by decide

/-- The text of a property of an object, its inherited ones included; `none` is `undefined`. -/
abbrev TemplateData := String → Option String

/-- The letters of a value. -/
def TemplateData.letters (data : TemplateData) (key : List Char) : Option (List Char) :=
  (data (String.ofList key)).map String.toList

/-- `template.replace(pattern, …)`, where the pattern is a word between double braces. -/
def renderTemplate (template : String) (data : TemplateData) : String :=
  String.ofList (render marks data.letters template.toList)

structure NotificationTemplate where
  name : String
  subject : String
  bodyTemplate : String
  deriving DecidableEq

/-- The notification `sendFromTemplate` gives to `send`. -/
def sendFromTemplate (templates : List NotificationTemplate) (templateName : String) (channel : Channel)
    (recipient : String) (data : TemplateData) (type : NotificationType) :
    Except HttpError Notification :=
  match templates.find? fun t => t.name = templateName with
  | none => .error (.notFound ("Template with name \"" ++ templateName ++ "\" not found"))
  | some template =>
    let subject := renderTemplate template.subject data
    let message := renderTemplate template.bodyTemplate data
    .ok ⟨channel, recipient, message, type, some subject, some subject, none, none⟩

/-- There is one way to cut the template into letters and placeholders from the left, and its
placeholders are filled in. What a value brings along is not looked at again. -/
theorem renderTemplate_iff (template : String) (data : TemplateData) (out : String) :
    (∃! s, textOf marks s = template.toList ∧ Leftmost marks s) ∧
      (renderTemplate template data = out ↔
        ∃ s, textOf marks s = template.toList ∧ Leftmost marks s ∧
          out.toList = s.flatMap (Segment.fill marks data.letters)) := by
  refine ⟨⟨segments marks template.toList, segments_iff.mp rfl, fun s hs => (segments_iff.mpr hs).symm⟩, ?_⟩
  constructor
  · rintro rfl
    exact ⟨_, textOf_segments _, leftmost_segments _, String.toList_ofList⟩
  · rintro ⟨s, htext, hleft, hout⟩
    have hs := segments_iff.mpr ⟨htext, hleft⟩
    rw [renderTemplate, Template.render, hs, ← hout, String.ofList_toList]

/-- A template whose only opening braces are those of its placeholders, filled in with some data and the
rest of it with other. -/
theorem renderTemplate_twice {s : List (Segment Char)} (h : Plain marks s) {data rest : TemplateData}
    (hdata : ∀ key value, data key = some value → '{' ∉ value.toList) :
    renderTemplate (renderTemplate (String.ofList (textOf marks s)) data) rest =
      renderTemplate (String.ofList (textOf marks s)) fun key => (data key).or (rest key) := by
  have hletters : ∀ key v, data.letters key = some v → marks.opening ∉ v := by
    intro key v hv
    obtain ⟨value, hvalue, rfl⟩ := Option.map_eq_some_iff.mp hv
    exact hdata _ value hvalue
  have hor : TemplateData.letters (fun key => (data key).or (rest key)) =
      fun key => (data.letters key).or (rest.letters key) := by
    funext key
    simp only [TemplateData.letters]
    cases data (String.ofList key) <;> rfl
  simp only [renderTemplate, String.toList_ofList, hor]
  rw [render_render h hletters]

/-- "Dear NAME, CODE" with the name first and the code after. -/
theorem renderTemplate_twice_dear :
    renderTemplate (renderTemplate (String.ofList (textOf marks
      [.hole "name".toList, .letter ',', .letter ' ', .hole "code".toList]))
        fun key => if key = "name" then some "Ann" else none)
        (fun key => if key = "code" then some "42" else none) =
      renderTemplate (String.ofList (textOf marks
        [.hole "name".toList, .letter ',', .letter ' ', .hole "code".toList]))
        fun key => (if key = "name" then some "Ann" else none).or (if key = "code" then some "42" else none) := by
  refine renderTemplate_twice ?_ ?_
  · intro x hx
    simp only [List.mem_cons, List.not_mem_nil, or_false] at hx
    rcases hx with rfl | rfl | rfl | rfl
    · exact ⟨by decide, by simp [marks, isWordChar]⟩
    · decide
    · decide
    · exact ⟨by decide, by simp [marks, isWordChar]⟩
  · intro key value hvalue
    split at hvalue
    · cases hvalue
      decide
    · cases hvalue

end NotificationDelivery
end TradeCore
