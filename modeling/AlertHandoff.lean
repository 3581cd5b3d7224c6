import AlertHandoff.Arbiter
import AlertHandoff.Grouping
import AlertHandoff.Handoff.Action
import AlertHandoff.Handoff.Deferral
import AlertHandoff.Handoff.Window
import AlertHandoff.Json.Basic
import AlertHandoff.Json.Document
import AlertHandoff.Json.Text
import AlertHandoff.Json.Token
import AlertHandoff.Keyed
import AlertHandoff.Notice
import AlertHandoff.Proofs.Batching
import AlertHandoff.Proofs.Cases
import AlertHandoff.Proofs.Cast
import AlertHandoff.Proofs.Confined
import AlertHandoff.Proofs.Conservation
import AlertHandoff.Proofs.Course
import AlertHandoff.Proofs.Departure
import AlertHandoff.Proofs.Described
import AlertHandoff.Proofs.DividedRoster
import AlertHandoff.Proofs.Division
import AlertHandoff.Proofs.History
import AlertHandoff.Proofs.Index
import AlertHandoff.Proofs.Ledger
import AlertHandoff.Proofs.Lockstep
import AlertHandoff.Proofs.OneAlert
import AlertHandoff.Proofs.Origin
import AlertHandoff.Proofs.Owner
import AlertHandoff.Proofs.Parts
import AlertHandoff.Proofs.Passing
import AlertHandoff.Proofs.Past
import AlertHandoff.Proofs.Promise
import AlertHandoff.Proofs.Reach
import AlertHandoff.Proofs.Record
import AlertHandoff.Proofs.Registry
import AlertHandoff.Proofs.Separation
import AlertHandoff.Proofs.Settling
import AlertHandoff.Proofs.Sole
import AlertHandoff.Proofs.Stands
import AlertHandoff.Proofs.Stillness
import AlertHandoff.Proofs.Teardown
import AlertHandoff.Proofs.Timely
import AlertHandoff.Proofs.Unasked
import AlertHandoff.Proofs.Voicing
import AlertHandoff.Proofs.Within
import AlertHandoff.Roster
import AlertHandoff.Scene.Basic
import AlertHandoff.Scene.Completion
import AlertHandoff.Scene.Forward
import AlertHandoff.Scene.HandBack
import AlertHandoff.Scene.Operation
import AlertHandoff.Screen.Basic
import AlertHandoff.Screen.Host
import AlertHandoff.Screen.News
import AlertHandoff.Screen.Presenter
import AlertHandoff.Screen.Row
import AlertHandoff.Session.Basic
import AlertHandoff.Session.Overview
import AlertHandoff.Session.Quiescence
import AlertHandoff.Wire.Journal
import AlertHandoff.Wire.Shape
import AlertHandoff.Wire.Values
import AlertHandoff.Wire.Views
import AlertHandoff.Proofs.Recast
import AlertHandoff.Proofs.Timeless
import AlertHandoff.Proofs.Relay
import AlertHandoff.Proofs.Takings
import AlertHandoff.Proofs.NoLoss
import AlertHandoff.Proofs.Growth
import AlertHandoff.Proofs.Redelivery
import AlertHandoff.Proofs.Feed
import AlertHandoff.Proofs.Extraction
import AlertHandoff.Proofs.Spelling
import AlertHandoff.Proofs.Written
import AlertHandoff.Proofs.ReadBack
import AlertHandoff.Proofs.DirectorySession
