import VethPeer.Main
import VethPeer.Probe.Steps
import VethPeer.Wire.Draft
import VethPeer.Bytes.Codec
import VethPeer.Text.Digits
import VethPeer.Proofs.Crew.Schedule
import VethPeer.Proofs.Wire.Framing
import VethPeer.Proofs.Wire.Tiling
import VethPeer.Proofs.Session.Codes
import VethPeer.Proofs.Session.Deliveries
import VethPeer.Proofs.Session.Reassembly
import VethPeer.Proofs.Inventory.Listing
import VethPeer.Proofs.Inventory.Narrowing
import VethPeer.Proofs.Session.Kernel
import VethPeer.Proofs.Session.Narrowing
import VethPeer.Proofs.Wire.Attributes
import VethPeer.Proofs.Wire.Rows
import VethPeer.Proofs.Wire.Streams
import VethPeer.Proofs.Wire.Records
import VethPeer.Proofs.Wire.Values
import VethPeer.Proofs.Inventory.Targets
import VethPeer.Proofs.Probe.Report
import VethPeer.Proofs.Session.Serving
import VethPeer.Proofs.Probe.Record
import VethPeer.Proofs.Crew.History
import VethPeer.Proofs.Session.Isolation
import VethPeer.Proofs.Session.Calls
import VethPeer.Proofs.Scan.Candidates
import VethPeer.Proofs.Scan.Representatives
import VethPeer.Proofs.Probe.Confinement
import VethPeer.Proofs.Session.Troubles
import VethPeer.Proofs.Session.Truncation
import VethPeer.Proofs.Probe.Course
import VethPeer.Proofs.Command.Handover
import VethPeer.Proofs.Inventory.Selection
import VethPeer.Proofs.Wire.Links
import VethPeer.Proofs.Wire.Addresses
import VethPeer.Proofs.Session.Replies
import VethPeer.Proofs.Session.Surveys
import VethPeer.Proofs.Wire.Walks
import VethPeer.Proofs.Wire.Walkers
import VethPeer.Proofs.Wire.Drafts
import VethPeer.Proofs.Session.Noops
import VethPeer.Proofs.Ip.Quads
import VethPeer.Proofs.Ip.Text
import VethPeer.Proofs.Command.Addressed
import VethPeer.Proofs.Net.Containment
import VethPeer.Proofs.Net.SubnetText
import VethPeer.Proofs.Command.Status
import VethPeer.Proofs.Session.Refusals
import VethPeer.Proofs.Text.Characters
import VethPeer.Proofs.Text.Mending
import VethPeer.Proofs.Wire.Names
