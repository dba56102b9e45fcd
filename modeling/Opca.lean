import Opca.Foundation.Calendar
import Opca.Foundation.Machine
import Opca.Foundation.Text
import Opca.Vault.Contest
import Opca.Vault.Lock
import Opca.Vault.Exclusion
import Opca.Vault.Holders
import Opca.Acme.Names
import Opca.Acme.Issue
import Opca.Acme.Store
import Opca.Acme.Sound
import Opca.Acme.Server
import Opca.Acme.Enrolled
import Opca.Foundation.Feed
import Opca.Acme.Changes
import Opca.Core.BrokerCerts
import Opca.Core.IssuedSince
import Opca.Core.BrokerSync
import Opca.Acme.Restore
import Opca.Acme.Pki
import Opca.Core.Database
import Opca.Foundation.Document
import Opca.Core.Authority
import Opca.Core.Sessions
import Opca.Core.Counters
import Opca.Core.Effects
import Opca.Core.Life
import Opca.Core.Listed
import Opca.Core.Revocation
import Opca.Core.Serials
import Opca.Core.Recovery
import Opca.Core.CrlNumbers
import Opca.Core.Release
import Opca.Acme.Broker
import Opca.Acme.Backup
import Opca.Acme.AllOrNothing
import Opca.Acme.Running
import Opca.Acme.Issuers
import Opca.Acme.Stopped
import Opca.Core.CommonName
import Opca.Core.Published
import Opca.Core.PublicCrl
import Opca.Core.Domains
import Opca.Core.Items
import Opca.Core.Brokerage
import Opca.Core.Subordinates
import Opca.Core.EnrolledOnce
import Opca.Core.DomainsMatch
import Opca.Core.CsrImport
import Opca.Core.CsrKeys
import Opca.Core.Bundles
import Opca.Core.Told
import Opca.Core.Agreement
import Opca.Core.San
import Opca.Core.Classification
import Opca.Core.Partition
import Opca.Core.Skipped
import Opca.Core.VpnStatus
import Opca.Core.Lifetimes
import Opca.Acme.Requests
import Opca.Acme.OneEnrolment
import Opca.Foundation.Escaped
import Opca.Core.VaultBackup
import Opca.Foundation.Ipv6Forms
import Opca.Frontend.San
import Opca.Core.Rebuild
import Opca.Core.Titles
import Opca.Core.Migration
import Opca.Acme.Serial
import Opca.Core.BrokerTimes
import Opca.Acme.Window
import Opca.Core.Concerns
import Opca.Core.LocalBackup
import Opca.Core.ConfigRow
import Opca.Core.Templates
import Opca.Core.CommandQueue
import Opca.Core.Collapsed
import Opca.Core.DomainNames
import Opca.Core.Migrated
import Opca.Core.Dump
import Opca.Core.DumpText
import Opca.Core.Dumped
import Opca.Foundation.SqlText
import Opca.Foundation.Concurrent
import Opca.Foundation.Portion
import Opca.Acme.Within
import Opca.Acme.Handlers
import Opca.Acme.Isolation
import Opca.Acme.Apart
import Opca.Foundation.Repack
import Opca.Acme.Base64
import Opca.Foundation.Utf8
import Opca.Acme.Validate
import Opca.Acme.Validated
import Opca.Acme.Calm
import Opca.Acme.Proper
import Opca.Acme.Pending
import Opca.Acme.Proven
import Opca.Core.KeyExport
